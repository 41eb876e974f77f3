import CoinScript.Proofs.Curve.Modular
import Mathlib.NumberTheory.LucasPrimality
import Mathlib.Tactic.NormNum.Prime

/-!
The modulus of the coordinates and the order of the group are prime.

By Lucas's test a number is prime if some residue has the order that only a prime allows, which
takes the prime factors of its predecessor. Those are certified in the same way, down to primes
that division finds. A certificate lists the numbers so that each rests on the ones before it,
and the powers of the test are those of `Modular.pow`.
-/

namespace CoinScript.Curve

/-- A number that Lucas's test is to show prime: a residue, and the prime factors of the number's
predecessor, each as often as it occurs. -/
structure Candidate where
  number : Nat
  residue : Nat
  factors : List Nat

/-- Lucas's test for a number below `2 ^ 256`. -/
def Candidate.passes (c : Candidate) : Bool :=
  1 < c.number && c.number < Nat.pow 2 256 && c.factors.prod == c.number - 1 &&
    Modular.pow c.number 256 c.residue (c.number - 1) == 1 &&
    c.factors.all fun q => Modular.pow c.number 256 c.residue ((c.number - 1) / q) != 1

lemma Candidate.prime {c : Candidate} (h : c.passes = true) (hq : ∀ q ∈ c.factors, q.Prime) :
    c.number.Prime := by
  simp only [passes, Bool.and_eq_true, decide_eq_true_eq, beq_iff_eq, List.all_eq_true,
    bne_iff_ne] at h
  obtain ⟨⟨⟨⟨hone, hlt⟩, hprod⟩, hfull⟩, hpart⟩ := h
  refine lucas_primality _ (c.residue : ZMod c.number) ?_ fun q hprime hdvd => ?_
  · exact (Modular.pow_eq_one_iff hone (by omega)).1 hfull
  · rw [← hprod, hprime.prime.dvd_prod_iff] at hdvd
    obtain ⟨f, hf, hdvd⟩ := hdvd
    obtain rfl : q = f := (Nat.prime_dvd_prime_iff_eq hprime (hq f hf)).1 hdvd
    have hle : (c.number - 1) / q ≤ c.number - 1 := Nat.div_le_self _ _
    exact fun hone' => hpart q hf ((Modular.pow_eq_one_iff hone (by omega)).2 hone')

/-- Whether each number of a list passes, with factors that are proven or before it in the list. -/
def certify : (proven : List Nat) → List Candidate → Bool
  | _, [] => true
  | proven, c :: cs => c.passes && c.factors.all (proven.contains ·) && certify (c.number :: proven) cs

lemma prime_of_certify {proven : List Nat} {cs : List Candidate} (h : certify proven cs = true)
    (hproven : ∀ q ∈ proven, q.Prime) : ∀ c ∈ cs, c.number.Prime := by
  induction cs generalizing proven with
  | nil => simp
  | cons c cs ih =>
    simp only [certify, Bool.and_eq_true, List.all_eq_true, List.contains_iff_mem] at h
    obtain ⟨⟨hpasses, hfactors⟩, hrest⟩ := h
    have hc : c.number.Prime := Candidate.prime hpasses fun q hq => hproven q (hfactors q hq)
    exact List.forall_mem_cons.2 ⟨hc, ih hrest (List.forall_mem_cons.2 ⟨hc, hproven⟩)⟩

def smallPrimes : List Nat :=
  [2, 3, 5, 7, 11, 17, 19, 29, 31, 41, 53, 59, 97, 101, 103, 109, 113, 149, 239, 293, 419, 443, 461,
    631, 797, 971, 1373, 1409, 1627, 1871, 2011, 2621, 2657, 2731, 2861, 4051, 4423, 5323, 7723,
    9349, 13441, 16699]

lemma prime_of_mem_smallPrimes : ∀ q ∈ smallPrimes, q.Prime := by
  simp only [smallPrimes, List.forall_mem_cons]
  norm_num

def modulusCertificate : List Candidate :=
  [⟨96557, 2, [2, 2, 101, 239]⟩,
    ⟨20113, 10, [2, 2, 2, 2, 3, 419]⟩,
    ⟨1206781, 10, [2, 2, 3, 5, 20113]⟩,
    ⟨7240687, 3, [2, 3, 1206781]⟩,
    ⟨41201, 3, [2, 2, 2, 2, 5, 5, 103]⟩,
    ⟨107590001, 3, [2, 2, 2, 2, 5, 5, 5, 5, 7, 29, 53]⟩,
    ⟨255515944373312847190720520512484175977, 3,
      [2, 2, 2, 7, 7, 11, 1627, 2657, 4423, 41201, 96557, 7240687, 107590001]⟩,
    ⟨24809, 6, [2, 2, 2, 7, 443]⟩,
    ⟨13331831, 13, [2, 5, 971, 1373]⟩,
    ⟨173378833005251801, 6, [2, 2, 2, 5, 5, 2621, 24809, 13331831]⟩,
    ⟨22149492674086928081353, 5, [2, 2, 2, 3, 5323, 173378833005251801]⟩,
    ⟨132896956044521568488119, 6, [2, 3, 22149492674086928081353]⟩,
    ⟨205115282021455665897114700593932402728804164701536103180137503955397371, 10,
      [2, 3, 5, 29, 29, 31, 7723, 132896956044521568488119,
        255515944373312847190720520512484175977]⟩,
    ⟨p, 3, [2, 3, 7, 13441,
      205115282021455665897114700593932402728804164701536103180137503955397371]⟩]

def orderCertificate : List Candidate :=
  [⟨44706919, 6, [2, 3, 797, 9349]⟩,
    ⟨120233, 3, [2, 2, 2, 7, 19, 113]⟩,
    ⟨174723607534414371449, 3, [2, 2, 2, 17, 59, 4051, 120233, 44706919]⟩,
    ⟨4681609, 23, [2, 2, 2, 3, 97, 2011]⟩,
    ⟨85831, 3, [2, 3, 5, 2861]⟩,
    ⟨107361793816595537, 3, [2, 2, 2, 2, 16699, 85831, 4681609]⟩,
    ⟨305873, 3, [2, 2, 2, 2, 7, 2731]⟩,
    ⟨1627771, 3, [2, 3, 5, 29, 1871]⟩,
    ⟨297159362677, 2, [2, 2, 3, 3, 11, 461, 1627771]⟩,
    ⟨28181, 2, [2, 2, 5, 1409]⟩,
    ⟨545358713, 5, [2, 2, 2, 41, 59, 28181]⟩,
    ⟨29047611873442575647497758179, 2, [2, 293, 305873, 545358713, 297159362677]⟩,
    ⟨341948486974166000522343609283189, 2,
      [2, 2, 3, 3, 3, 109, 29047611873442575647497758179]⟩,
    ⟨n, 7, [2, 2, 2, 2, 2, 2, 3, 149, 631, 107361793816595537, 174723607534414371449,
      341948486974166000522343609283189]⟩]

theorem prime_p : p.Prime := by
  have h : certify smallPrimes modulusCertificate = true := by decide +kernel
  exact prime_of_certify h prime_of_mem_smallPrimes _ (List.getLast_mem (List.cons_ne_nil _ _))

theorem prime_n : n.Prime := by
  have h : certify smallPrimes orderCertificate = true := by decide +kernel
  exact prime_of_certify h prime_of_mem_smallPrimes _ (List.getLast_mem (List.cons_ne_nil _ _))

instance : Fact p.Prime := ⟨prime_p⟩

instance : Fact n.Prime := ⟨prime_n⟩

end CoinScript.Curve
