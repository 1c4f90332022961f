import ChipEight.Proofs.Bounds
import ChipEight.Proofs.Words

/-!
# When a step is refused

`Refuses` lists, by the digits of the word and by what the machine holds, when a word is refused
and why. It is written without decoding or executing anything; `step_error_iff` says that a step
fails exactly if the list says so, for the cause on the list, with the word and its address.
-/

namespace ChipEight.Machine

open Instruction

variable {σ : Type}

/-- Why the word `w` is refused at present. -/
def Refuses (m : Machine σ) (w : Nat) : Cause → Prop
  | .unimplemented => ¬ IsDefined w
  | .stackUnderflow => w = 0x00EE ∧ m.stack = []
  | .stackOverflow => w / 0x1000 = 0x2 ∧ m.stack.length = 16
  | .memoryAccess =>
    w / 0x1000 = 0xD ∧ 0 < w % 0x10 ∧ 4096 < m.index + w % 0x10 ∨
    w / 0x1000 = 0xF ∧ w % 0x100 = 0x33 ∧ 4096 < m.index + 3 ∨
    w / 0x1000 = 0xF ∧ (w % 0x100 = 0x55 ∨ w % 0x100 = 0x65) ∧
      4096 < m.index + w / 0x100 % 0x10 + 1

instance (m : Machine σ) (w : Nat) : (c : Cause) → Decidable (m.Refuses w c)
  | .unimplemented => inferInstanceAs (Decidable (¬ _))
  | .stackUnderflow => inferInstanceAs (Decidable (_ ∧ _))
  | .stackOverflow => inferInstanceAs (Decidable (_ ∧ _))
  | .memoryAccess => inferInstanceAs (Decidable (_ ∨ _))

theorem not_fits_iff {addr n : Nat} : ¬ Memory.Fits addr n ↔ 0 < n ∧ 4096 < addr + n := by
  unfold Memory.Fits Memory.size
  omega

/-- Only the first cause is about the word alone; the others are refusals of an instruction. -/
theorem isDefined_of_refuses {m : Machine σ} {w : Nat} {c : Cause} (h : m.Refuses w c)
    (hc : c ≠ .unimplemented) : IsDefined w := by
  cases c with
  | unimplemented => exact absurd rfl hc
  | stackUnderflow =>
    rw [h.1]
    decide
  | stackOverflow =>
    have hw : w / 0x1000 = 0x2 := h.1
    right; left
    rw [hw]
    decide
  | memoryAccess =>
    rcases h with ⟨hw, -⟩ | ⟨hw, hb, -⟩ | ⟨hw, hb, -⟩
    · right; left
      rw [hw]
      decide
    · right; right; right; right; right
      rw [hw, hb]
      decide
    · right; right; right; right; right
      rcases hb with hb | hb <;> rw [hw, hb] <;> decide

variable [RandomSource σ] {m : Machine σ} {i : Instruction} {c : Cause}

theorem refuses_of_execute (hdepth : m.stack.length ≤ 16) (he : m.execute i = .error c) :
    m.Refuses i.encode c := by
  -- an instruction that is not listed is never refused
  cases i with
  | ret =>
    rw [execute] at he
    split at he <;> cases he
    exact ⟨rfl, by assumption⟩
  | call a =>
    rw [execute] at he
    unfold stackDepth at he
    split at he <;> cases he
    refine ⟨?_, by omega⟩
    show (0x2000 + a.val) / 0x1000 = 0x2
    omega
  | addIndex x =>
    rw [execute] at he
    dsimp only at he
    split at he <;> cases he
  | awaitRelease x =>
    rw [execute] at he
    split at he <;> cases he
  | draw x y n =>
    rw [execute_draw] at he
    split at he <;> cases he
    rename_i hfits
    have hn := not_fits_iff.mp hfits
    left
    simp only [encode]
    omega
  | storeDecimal x =>
    rw [execute_storeDecimal] at he
    split at he <;> cases he
    rename_i hfits
    have hn := not_fits_iff.mp hfits
    right; left
    simp only [encode]
    omega
  | store x | restore x =>
    simp only [execute_store, execute_restore] at he
    split at he <;> cases he
    rename_i hfits
    have hn := not_fits_iff.mp hfits
    right; right
    simp only [encode]
    omega
  | _ => cases he

theorem execute_of_refuses (hr : m.Refuses i.encode c) : m.execute i = .error c := by
  cases c with
  | unimplemented => exact absurd i.isDefined_encode hr
  | stackUnderflow =>
    obtain ⟨hw, hs⟩ := hr
    obtain rfl : i = .ret := encode_inj hw
    rw [execute, hs]
  | stackOverflow =>
    obtain ⟨hw, hs⟩ := hr
    obtain ⟨a, rfl⟩ := eq_call hw
    rw [execute, hs]
    rfl
  | memoryAccess =>
    rcases hr with ⟨hw, hn, hi⟩ | ⟨hw, hb, hi⟩ | ⟨hw, hb, hi⟩
    · obtain ⟨x, y, n, rfl⟩ := eq_draw hw
      simp only [encode] at hn hi
      rw [execute_draw, if_neg (not_fits_iff.mpr (by omega))]
    · obtain ⟨x, rfl⟩ := eq_of_device .storeDecimal (fun _ => rfl) hw hb
      rw [execute_storeDecimal, if_neg (not_fits_iff.mpr (by omega))]
    · rcases hb with hb | hb
      · obtain ⟨x, rfl⟩ := eq_of_device .store (fun _ => rfl) hw hb
        simp only [encode] at hi
        rw [execute_store, if_neg (not_fits_iff.mpr (by omega))]
      · obtain ⟨x, rfl⟩ := eq_of_device .restore (fun _ => rfl) hw hb
        simp only [encode] at hi
        rw [execute_restore, if_neg (not_fits_iff.mpr (by omega))]

/-- An instruction is refused exactly if its word is on the list. -/
theorem execute_error_iff (hdepth : m.stack.length ≤ 16) :
    m.execute i = .error c ↔ m.Refuses i.encode c :=
  ⟨refuses_of_execute hdepth, execute_of_refuses⟩

theorem cycle_error_iff (hdepth : m.stack.length ≤ 16) (f : Fault) :
    m.cycle = .error f ↔
      0xFFE < m.pc ∧ f = ⟨.memoryAccess, none, m.pc⟩ ∨
      m.pc ≤ 0xFFE ∧ m.Refuses m.word f.cause ∧ f = ⟨f.cause, some m.word, m.pc⟩ := by
  rcases m.word_cases with hpc | ⟨hpc, hd⟩ | ⟨i, hi⟩
  · rw [cycle_of_lt hpc]
    constructor
    · intro h
      cases h
      exact .inl ⟨hpc, rfl⟩
    · rintro (⟨-, rfl⟩ | ⟨hpc', -⟩)
      · rfl
      · omega
  · have hw : ¬ IsDefined m.word := by
      rw [← isSome_decode? m.word_lt, hd]
      exact Bool.false_ne_true
    rw [cycle_of_undefined hpc hd]
    constructor
    · intro h
      cases h
      exact .inr ⟨hpc, hw, rfl⟩
    · rintro (⟨hpc', -⟩ | ⟨-, hr, hf⟩)
      · omega
      · -- every other cause belongs to a defined word
        have hc : f.cause = .unimplemented := by
          by_cases hc : f.cause = .unimplemented
          · exact hc
          · exact absurd (isDefined_of_refuses hr hc) hw
        rw [hf, hc]
  · rw [cycle_of_atWord hi, hi.2]
    constructor
    · intro h
      cases he : m.execute i with
      | ok m' => rw [he] at h; cases h
      | error c =>
        rw [he] at h
        cases h
        exact .inr ⟨hi.1, (execute_error_iff hdepth).mp he, rfl⟩
    · rintro (⟨hpc', -⟩ | ⟨-, hr, hf⟩)
      · have := hi.1
        omega
      · rw [(execute_error_iff hdepth).mpr hr]
        exact congrArg Except.error hf.symm

theorem step_snd_error_iff (hm : m.fault = none) (f : Fault) :
    m.step.2 = .error f ↔ m.tick.cycle = .error f := by
  rcases step_cases hm with ⟨g, -, hc, hs⟩ | ⟨i, m', hi, he, hs⟩
  · rw [hs, hc]
    constructor
    · intro h; cases h; rfl
    · intro h; cases h; rfl
  · rw [hs, cycle_of_atWord (m := m.tick) hi, he]
    constructor
    · intro h; cases h
    · intro h; cases h

/--
**When a step raises, and what.** A reachable machine that has not stopped refuses to step exactly
when there is no word at `pc` or its word is on the list, for the cause that the list gives. The
fault names `pc`, and the word if there was one. There is no other way to fail.
-/
theorem step_error_iff (hr : Reachable m) (hm : m.fault = none) (f : Fault) :
    m.step.2 = .error f ↔
      0xFFE < m.pc ∧ f = ⟨.memoryAccess, none, m.pc⟩ ∨
      m.pc ≤ 0xFFE ∧ m.Refuses m.word f.cause ∧ f = ⟨f.cause, some m.word, m.pc⟩ := by
  obtain ⟨speed, hb⟩ := bounds_reachable hr
  rw [step_snd_error_iff hm]
  exact cycle_error_iff (m := m.tick) hb.depth_le f

/-- A program that only returns. -/
theorem step_error_lone_return :
    let m := holding ⟨[0x00, 0xEE], by decide⟩
    Reachable m ∧ m.fault = none ∧
      m.step.2 = .error ⟨.stackUnderflow, some 0x00EE, 0x200⟩ := by
  intro m
  have hr : Reachable m := .new _ _ _
  have hw : m.word = 0x00EE := by decide +kernel
  refine ⟨hr, rfl, (step_error_iff hr rfl _).mpr (.inr ⟨?_, ?_, ?_⟩)⟩
  · show 0x200 ≤ 0xFFE
    decide
  · rw [hw]
    exact ⟨rfl, rfl⟩
  · rw [hw]
    rfl

end ChipEight.Machine
