import CoinScript.Proofs.Ecdsa.Signing
import CoinScript.Proofs.Script.PayToKey
import CoinScript.Proofs.SignatureHash.Legacy

/-!
What the signer signs, the checker finds signed.

The checker reads key and signature back and takes the digest anew, of the type that the last
byte of the signature names. That byte is all it learns about the type, so it comes to the
signer's digest where the signer's type was a byte.
-/

namespace CoinScript

open SignatureHash

/-- The type that is left of a type in the byte behind a signature. -/
def SighashType.lowByte (t : SighashType) : SighashType := ⟨t.value.toUInt8.toUInt32⟩

lemma SighashType.lowByte_eq {t : SighashType} (h : t.value < 0x100) : t.lowByte = t := by
  obtain ⟨value⟩ := t
  have hlt : value.toNat < 256 := h
  refine congrArg SighashType.mk (UInt32.toNat_inj.1 ?_)
  rw [UInt8.toNat_toUInt32, UInt32.toNat_toUInt8]
  exact Nat.mod_eq_of_lt hlt

variable {secret : Bytes} {d : Ecdsa.SecretKey} {z : Hash256} {sig : Ecdsa.Signature}
  {code : Script} {tx : Transaction} {index : Nat} {t : SighashType}

lemma signDigest_eq (hkey : Ecdsa.SecretKey.ofBytes secret = .ok d) :
    signDigest secret z t = .ok (Ecdsa.Der.encode (Ecdsa.sign d z) ++ [t.value.toUInt8]) := by
  rw [signDigest, hkey]
  rfl

lemma publicKey_eq (hkey : Ecdsa.SecretKey.ofBytes secret = .ok d) :
    publicKey secret = .ok d.publicKey.compressed := by
  rw [publicKey, hkey]
  rfl

lemma checkSignature_encode (hsig : sig.Canonical) (b : UInt8) :
    checkSignature (Ecdsa.Der.encode sig ++ [b]) d.publicKey.compressed code tx index =
      (Ecdsa.verify d.publicKey · sig) <$> digest code tx index ⟨b.toUInt32⟩ := by
  have hlast : (Ecdsa.Der.encode sig ++ [b]).getLast? = some b := List.getLast?_concat
  rw [checkSignature, hlast, List.dropLast_concat, Ecdsa.Der.decodeLax?_encode hsig,
    Ecdsa.PublicKey.ofBytes?_compressed d.onCurve_publicKey]
  simp only [hsig.lower_eq]
  rfl

lemma checkSignature_signed (hdigest : digest code tx index t.lowByte = .ok z) :
    checkSignature (Ecdsa.Der.encode (Ecdsa.sign d z) ++ [t.value.toUInt8]) d.publicKey.compressed
      code tx index = .ok true := by
  obtain ⟨hcanonical, hverify⟩ := Ecdsa.verify_sign d z
  rw [checkSignature_encode hcanonical]
  exact (congrArg _ hdigest).trans (congrArg Except.ok hverify)

lemma checkSignature_of_noKey {signature key : Bytes} (h : Ecdsa.PublicKey.ofBytes? key = none) :
    checkSignature signature key code tx index = .ok false := by
  rw [checkSignature, h]
  cases signature.getLast? <;> rfl

/-- **A signed digest checks**: whatever the secret and the type, the digest that the low byte of
the type gives can be signed, and its signature is accepted under the public key. Of a type that is
a byte, that is the digest of the type. -/
theorem checkSignature_signDigest (hkey : Ecdsa.SecretKey.ofBytes secret = .ok d)
    (hdigest : digest code tx index t.lowByte = .ok z) :
    (t.value < 0x100 → t.lowByte = t) ∧
      ∃ signature key, signDigest secret z t = .ok signature ∧ publicKey secret = .ok key ∧
        checkSignature signature key code tx index = .ok true :=
  ⟨SighashType.lowByte_eq, _, _, signDigest_eq hkey, publicKey_eq hkey,
    checkSignature_signed hdigest⟩

def ones : Bytes := List.replicate 32 0x11

def onesKey : Ecdsa.SecretKey := ⟨ones.toNatBE, by decide +kernel, by decide +kernel⟩

lemma ofBytes_ones : Ecdsa.SecretKey.ofBytes ones = .ok onesKey := by
  rw [Ecdsa.SecretKey.ofBytes]
  exact dif_pos ⟨rfl, onesKey.pos, onesKey.lt⟩

def onesLock : Script := .payToKey onesKey.publicKey.compressed

lemma exists_digest_ones :
    ∃ z, digest onesLock PlainTransaction.twofold.transaction 1 ⟨0x83⟩ = .ok z :=
  Except.exists_of_isOk (by decide +kernel)

theorem checkSignature_ones : ∃ z signature key,
    digest onesLock PlainTransaction.twofold.transaction 1 ⟨0x83⟩ = .ok z ∧
      signDigest ones z ⟨0x183⟩ = .ok signature ∧ publicKey ones = .ok key ∧
      checkSignature signature key onesLock PlainTransaction.twofold.transaction 1 = .ok true := by
  obtain ⟨z, hdigest⟩ := exists_digest_ones
  have hlow : SighashType.lowByte ⟨0x183⟩ = ⟨0x83⟩ := by decide
  obtain ⟨-, signature, key, hsigned, hkey, hcheck⟩ :=
    checkSignature_signDigest ofBytes_ones (hlow.symm ▸ hdigest)
  exact ⟨z, signature, key, hdigest, hsigned, hkey, hcheck⟩

/-- **A digest of a type of two bytes** does not check once it is signed: the checker takes that of
the low byte. -/
theorem wide_type_not_checked : ∃ z signature key,
    digest onesLock PlainTransaction.twofold.transaction 1 ⟨0x183⟩ = .ok z ∧
      signDigest ones z ⟨0x183⟩ = .ok signature ∧ publicKey ones = .ok key ∧
      checkSignature signature key onesLock PlainTransaction.twofold.transaction 1 = .ok false := by
  have h : (do
      let z ← digest onesLock PlainTransaction.twofold.transaction 1 ⟨0x183⟩
      let signature ← signDigest ones z ⟨0x183⟩
      let key ← publicKey ones
      checkSignature signature key onesLock PlainTransaction.twofold.transaction 1).toOption =
        some false := by decide +kernel
  obtain ⟨z, hdigest, h⟩ := Except.bind_eq_ok.1 (Except.toOption_eq_some.1 h)
  obtain ⟨signature, hsigned, h⟩ := Except.bind_eq_ok.1 h
  obtain ⟨key, hkey, h⟩ := Except.bind_eq_ok.1 h
  exact ⟨z, signature, key, hdigest, hsigned, hkey, h⟩

end CoinScript
