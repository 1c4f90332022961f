import ChipEight.Machine.Step
import ChipEight.Proofs.Access

/-!
# What a step can do

The word at `pc` decides everything. A step is refused because there is no such word, because the
word means nothing, or because its instruction is refused; else the instruction is executed.
`step_cases` says so once, and no later proof opens `step` or `cycle` again.
-/

namespace ChipEight

namespace Machine

open Instruction

variable {σ : Type}

/-- The word at `pc`. -/
def word (m : Machine σ) : Nat := m.memory.wordAt m.pc

/-- There is a word at `pc`, and it is `w`. -/
def AtWord (m : Machine σ) (w : Nat) : Prop := m.pc ≤ 0xFFE ∧ m.word = w

theorem word_lt (m : Machine σ) : m.word < 65536 := m.memory.wordAt_lt m.pc

theorem word_cases (m : Machine σ) :
    0xFFE < m.pc ∨ (m.pc ≤ 0xFFE ∧ decode? m.word = none) ∨
      ∃ i : Instruction, m.AtWord i.encode := by
  rcases Nat.lt_or_ge 0xFFE m.pc with hpc | hpc
  · exact .inl hpc
  · cases hd : decode? m.word with
    | none => exact .inr (.inl ⟨hpc, rfl⟩)
    | some i => exact .inr (.inr ⟨i, hpc, ((decode?_eq_some_iff m.word_lt).mp hd).symm⟩)

theorem register_setRegister (m : Machine σ) (x : Register) (b : UInt8) (k : Register) :
    (m.setRegister x b).register k = if k = x then b else m.register k := by
  show (m.registers.set x b)[k.val] = _
  by_cases hk : k = x
  · subst hk
    rw [if_pos rfl, Vector.getElem_set_self]
  · have hval : x.val ≠ k.val := fun h => hk (Fin.ext h.symm)
    rw [if_neg hk, Vector.getElem_set_ne _ _ hval]
    rfl

theorem flag_eq_ite {b : Bool} {p : Prop} [Decidable p] (h : b = true ↔ p) :
    flag b = if p then 1 else 0 := by
  by_cases hp : p
  · rw [if_pos hp, h.mpr hp]
    rfl
  · rw [if_neg hp, Bool.eq_false_iff.mpr (mt h.mp hp)]
    rfl

theorem reaching_checkRange (addr n : Nat) :
    reaching (Memory.checkRange addr n) =
      if Memory.Fits addr n then .ok () else .error .memoryAccess := by
  by_cases h : Memory.Fits addr n
  · rw [if_pos h, Memory.checkRange_of_fits h]
    rfl
  · obtain ⟨e, he⟩ := Memory.checkRange_of_not_fits h
    rw [if_neg h, he]
    rfl

theorem reaching_readBlock (b : Memory) (addr n : Nat) :
    reaching (b.readBlock addr n) =
      if Memory.Fits addr n then .ok (b.block addr n) else .error .memoryAccess := by
  by_cases h : Memory.Fits addr n
  · rw [if_pos h, b.readBlock_of_fits h]
    rfl
  · obtain ⟨e, he⟩ := Memory.checkRange_of_not_fits h
    rw [if_neg h, Memory.readBlock, he]
    rfl

variable [RandomSource σ]

/-! ## The instructions that reach into memory -/

theorem execute_draw (m : Machine σ) (x y : Register) (n : Fin 16) :
    m.execute (.draw x y n) =
      if Memory.Fits m.index n then
        let drawn := m.display.draw (m.register x).toNat (m.register y).toNat
          (m.memory.block m.index n)
        .ok { m.setRegister flagRegister (flag drawn.2) with display := drawn.1 }
      else .error .memoryAccess := by
  rw [execute, reaching_readBlock]
  split <;> rfl

theorem execute_storeDecimal (m : Machine σ) (x : Register) :
    m.execute (.storeDecimal x) =
      if Memory.Fits m.index 3 then
        .ok { m with
          memory := m.memory.putAll m.index (decimalDigits (m.register x)), pc := m.pc + 2 }
      else .error .memoryAccess := by
  have h : reaching (Memory.checkRange m.index 3) = _ := reaching_checkRange m.index 3
  rw [execute, h]
  split <;> rfl

theorem execute_store (m : Machine σ) (x : Register) :
    m.execute (.store x) =
      if Memory.Fits m.index (x + 1) then
        .ok { m with
          memory := m.memory.putAll m.index (m.registers.toList.take (x + 1)), pc := m.pc + 2 }
      else .error .memoryAccess := by
  have h : reaching (Memory.checkRange m.index (x.val + 1)) = _ :=
    reaching_checkRange m.index (x + 1)
  rw [execute, h]
  split <;> rfl

theorem execute_restore (m : Machine σ) (x : Register) :
    m.execute (.restore x) =
      if Memory.Fits m.index (x + 1) then
        .ok { m with registers := m.restored x, pc := m.pc + 2 }
      else .error .memoryAccess := by
  have h : reaching (Memory.checkRange m.index (x.val + 1)) = _ :=
    reaching_checkRange m.index (x + 1)
  rw [execute, h]
  split <;> rfl

/-! ## The word at `pc` -/

theorem cycle_of_lt {m : Machine σ} (h : 0xFFE < m.pc) :
    m.cycle = .error ⟨.memoryAccess, none, m.pc⟩ := by
  obtain ⟨e, he⟩ := m.memory.fetchWord_of_lt h
  rw [cycle, he]

theorem cycle_of_undefined {m : Machine σ} (h : m.pc ≤ 0xFFE) (hd : decode? m.word = none) :
    m.cycle = .error ⟨.unimplemented, some m.word, m.pc⟩ := by
  have hd' : decode? (m.memory.wordAt m.pc) = none := hd
  rw [cycle, m.memory.fetchWord_of_le h]
  dsimp only
  rw [hd']
  rfl

/-- The cycle of a machine whose word is that of `i`. -/
theorem cycle_of_atWord {m : Machine σ} {i : Instruction} (h : m.AtWord i.encode) :
    m.cycle = match m.execute i with
      | .error cause => .error ⟨cause, some m.word, m.pc⟩
      | .ok m' => .ok (m', i.draws) := by
  have hd : decode? (m.memory.wordAt m.pc) = some i :=
    (decode?_eq_some_iff m.word_lt).mpr h.2.symm
  rw [cycle, m.memory.fetchWord_of_le h.1]
  dsimp only
  rw [hd]
  rfl

/-! ## Steps -/

theorem step_of_fault {m : Machine σ} {f : Fault} (h : m.fault = some f) :
    m.step = (m, .error f) := by
  rw [step, h]

/-- What a fault leaves. -/
theorem step_of_cycle_error {m : Machine σ} (hm : m.fault = none) {f : Fault}
    (h : m.tick.cycle = .error f) :
    m.step = ({ m.tick with keypad := m.keypad.consume, fault := some f }, .error f) := by
  rw [step, hm]
  dsimp only
  rw [h]
  rfl

/-- What an executed instruction leaves. -/
theorem step_of_execute {m m' : Machine σ} (hm : m.fault = none) {i : Instruction}
    (hi : m.AtWord i.encode) (h : m.tick.execute i = .ok m') :
    m.step =
      ({ m' with keypad := m'.keypad.consume, steps := m'.steps + 1 }, .ok i.draws) := by
  have hc : m.tick.cycle = .ok (m', i.draws) := by
    rw [cycle_of_atWord (m := m.tick) hi, h]
  rw [step, hm]
  dsimp only
  rw [hc]

/-- **Everything that a step can do** to a machine that has not stopped. -/
theorem step_cases {m : Machine σ} (hm : m.fault = none) :
    (∃ f, f.pc = m.pc ∧ m.tick.cycle = .error f ∧
      m.step = ({ m.tick with keypad := m.keypad.consume, fault := some f }, .error f)) ∨
    (∃ i m', m.AtWord i.encode ∧ m.tick.execute i = .ok m' ∧
      m.step =
        ({ m' with keypad := m'.keypad.consume, steps := m'.steps + 1 }, .ok i.draws)) := by
  rcases m.tick.word_cases with hpc | ⟨hpc, hd⟩ | ⟨i, hi⟩
  · have hc := cycle_of_lt hpc
    exact .inl ⟨_, rfl, hc, step_of_cycle_error hm hc⟩
  · have hc := cycle_of_undefined hpc hd
    exact .inl ⟨_, rfl, hc, step_of_cycle_error hm hc⟩
  · have hc := cycle_of_atWord hi
    cases he : m.tick.execute i with
    | error cause =>
      rw [he] at hc
      exact .inl ⟨_, rfl, hc, step_of_cycle_error hm hc⟩
    | ok m' => exact .inr ⟨i, m', hi, he, step_of_execute hm hi he⟩

/-- A step that is not refused has executed the instruction at `pc`. -/
theorem executed_of_ok {m : Machine σ} (hm : m.fault = none) {redraw : Bool}
    (hok : m.step.2 = .ok redraw) {i : Instruction} (hi : m.AtWord i.encode) :
    ∃ m', m.tick.execute i = .ok m' ∧ redraw = i.draws ∧
      m.step.1 = { m' with keypad := m'.keypad.consume, steps := m'.steps + 1 } := by
  have hc := cycle_of_atWord (m := m.tick) hi
  cases he : m.tick.execute i with
  | error cause =>
    rw [he] at hc
    rw [step_of_cycle_error hm hc] at hok
    cases hok
  | ok m' =>
    rw [step_of_execute hm hi he] at hok ⊢
    cases hok
    exact ⟨m', rfl, rfl, rfl⟩

theorem atWord_of_ok {m : Machine σ} (hm : m.fault = none) {redraw : Bool}
    (hok : m.step.2 = .ok redraw) : ∃ i : Instruction, m.AtWord i.encode := by
  rcases step_cases hm with ⟨f, -, -, hs⟩ | ⟨i, m', hi, -, -⟩
  · rw [hs] at hok
    cases hok
  · exact ⟨i, hi⟩

end Machine

end ChipEight
