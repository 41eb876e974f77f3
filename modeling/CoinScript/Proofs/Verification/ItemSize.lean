import CoinScript.Proofs.Machine.Growth
import CoinScript.Proofs.Verification.Protocol

/-!
How long items become in a verification.

The items that a script starts from are those that another has left, and each script makes them
longer by at most as many bytes as it may count operations. The scripts of a verification are two
deep: a locking script and a redeem script both start from what the unlocking script leaves, and
that starts from nothing.
-/

namespace CoinScript

lemma Stage.mem_of_mem_started {stages : List Stage} {r : Run} (h : r ∈ started stages) :
    run r ∈ stages := by
  induction stages with
  | nil => cases h
  | cons stage rest ih =>
    unfold started reached at h
    rw [List.filterMap_cons] at h
    -- whether the stage stops the others or not, those started are among them
    have htail {stages : List Stage} (hsub : stages ⊆ reached rest)
        (h : r ∈ stages.filterMap run?) : run r ∈ stage :: rest := by
      obtain ⟨s, hs, hr⟩ := List.mem_filterMap.1 h
      exact List.mem_cons_of_mem stage (ih (List.mem_filterMap.2 ⟨s, hsub hs, hr⟩))
    have hrest : (if stage.fault?.isSome then [] else reached rest) ⊆ reached rest := by
      split
      · exact List.nil_subset _
      · exact List.Subset.refl _
    cases stage with
    | run r' =>
      rcases List.mem_cons.1 h with rfl | h
      · exact List.mem_cons_self
      · exact htail hrest h
    | demand met fault => exact htail hrest h

namespace Attempt

variable {a : Attempt}

lemma fits_left (ht : a.table.Confined) (h : a.unlockingRun.fault? = none) : a.left.Fits 721 :=
  fits_runScript ht (Nat.le_refl 520) Stack.fits_nil h

lemma fits_of_mem_execution (ht : a.table.Confined) {s : Step} (h : s ∈ a.execution.steps) :
    (s.stack ++ s.altstack).Fits 922 := by
  -- the first run starts with nothing, and what it leaves is where the other two start
  have hunlocking (h : s ∈ a.unlockingRun.steps) : (s.stack ++ s.altstack).Fits 922 := by
    have hfits := fits_of_mem_steps ht (Nat.le_refl 520) Stack.fits_nil h
    exact hfits.mono (by decide)
  rw [execution_steps] at h
  obtain ⟨r, hr, hs⟩ := List.mem_flatMap.1 h
  rcases hfault : a.unlockingRun.fault? with - | e
  · have hleft := fits_left ht hfault
    have htail : Stack.Fits a.left.tail 721 := hleft.of_subset fun x hx => List.mem_of_mem_tail hx
    have hlocking (h : s ∈ a.lockingRun.steps) : (s.stack ++ s.altstack).Fits 922 :=
      fits_of_mem_steps ht (by decide) hleft h
    have hredeem (h : s ∈ a.redeemRun.steps) : (s.stack ++ s.altstack).Fits 922 :=
      fits_of_mem_steps ht (by decide) htail h
    have hmem := Stage.mem_of_mem_started hr
    simp only [stages, lockingStages, redeemStages, List.mem_cons, Stage.run.injEq, reduceCtorEq,
      false_or] at hmem
    rcases hmem with rfl | rfl | hmem
    · exact hunlocking hs
    · exact hlocking hs
    · by_cases hredeems : a.redeems = true
      · rw [if_pos hredeems] at hmem
        have hr : r = a.redeemRun := by simpa using hmem
        rw [hr] at hs
        exact hredeem hs
      · rw [if_neg hredeems] at hmem
        cases hmem
  · rw [stages, Stage.started_run_fault hfault, List.mem_singleton] at hr
    subst hr
    exact hunlocking hs

end Attempt

/-- **Items cannot grow without bound** where the splice, bitwise and wide arithmetic opcodes are
disabled and all handlers are ones that a configuration can name. From a stack of items of some
size, not below that of the largest push, each snapshot of a run shows items that are longer by no
more bytes than it has shown opcodes above the pushes, of which there are no more than the limit on
operations. So an evaluation shows no item above 721 bytes, and a verification, whose scripts start
from what another has left, none above 922. -/
theorem items_fit {table : OpcodeTable} (hregistered : table.Registered)
    (hdisabled : ∀ op ∈ Opcode.standardDisabled, table.isDisabled op = true) :
    (∀ (setting : Setting) (phase : Phase) (script : Script) (stack : Stack) (size : Nat)
        (before : List Step) (s : Step) (after : List Step),
      520 ≤ size → (∀ item ∈ stack, item.length ≤ size) →
      (runScript ⟨table, setting, phase, script⟩ stack).steps = before ++ s :: after →
      ∀ item ∈ s.stack ++ s.altstack,
        item.length ≤ size + (before ++ [s]).countP Step.counts ∧ item.length ≤ size + 201) ∧
    (∀ (script : Script) (spend? : Option Spend),
      ∀ s ∈ (evaluate table script spend?).steps, ∀ item ∈ s.stack ++ s.altstack,
        item.length ≤ 721) ∧
    (∀ (unlocking locking : Script) (spend : Spend),
      ∀ s ∈ (verifyScripts table unlocking locking spend).steps,
        ∀ item ∈ s.stack ++ s.altstack, item.length ≤ 922) := by
  have ht : table.Confined := ⟨hdisabled, hregistered⟩
  refine ⟨?_, ?_, ?_⟩
  · intro setting phase script stack size before s after hsize hstack hsteps item hitem
    have hmem : s ∈ (runScript ⟨table, setting, phase, script⟩ stack).steps := by
      rw [hsteps]
      exact List.mem_append_right before List.mem_cons_self
    exact ⟨fits_runScript_steps ht hsize hstack hsteps item hitem,
      fits_of_mem_steps ht hsize hstack hmem item hitem⟩
  · intro script spend? s hs
    exact fits_of_mem_steps ht (Nat.le_refl 520) Stack.fits_nil hs
  · intro unlocking locking spend s hs
    have hexecution : s ∈ (Attempt.mk table unlocking locking spend).execution.steps := hs
    exact Attempt.fits_of_mem_execution ht hexecution

/-- One added to the largest number of 520 bytes takes a byte more, in one counted operation. -/
theorem items_fit_increment :
    ∃ s, (runScript ⟨.standard, {}, .standalone, ⟨[0x8b]⟩⟩
        [List.replicate 519 0xff ++ [0x7f]]).steps = [s] ∧
      s.stack.map List.length = [521] ∧
      ∀ item ∈ s.stack ++ s.altstack, item.length ≤ 520 + [s].countP Step.counts := by
  refine ⟨_, rfl, by decide +kernel, fun item hitem => ?_⟩
  have hdisabled : ∀ op ∈ Opcode.standardDisabled, OpcodeTable.standard.isDisabled op = true :=
    List.all_eq_true.1 (by decide)
  have hstack : ∀ item ∈ [List.replicate 519 (0xff : UInt8) ++ [0x7f]], item.length ≤ 520 := by
    decide +kernel
  exact ((items_fit OpcodeTable.registered_standard hdisabled).1 {} .standalone ⟨[0x8b]⟩ _ 520 [] _
    [] (Nat.le_refl 520) hstack rfl item hitem).1

end CoinScript
