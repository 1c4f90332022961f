import ChipEight.Proofs.Cycle

/-!
# What an instruction can change

Most instructions end in the registers, the index and `pc`. The few that reach further are told
apart here: two for the display, two for memory, two for the stack, two for the timers and one for
the random source. `outcome_of_execute` says it once, and what an instruction leaves alone is read
off the cases.
-/

namespace ChipEight.Machine

variable {σ : Type}

/-- The machine after an executed instruction, up to values that are computed on the way. -/
inductive Outcome (m : Machine σ) : Instruction → Machine σ → Prop where
  | inner (i : Instruction) (registers : Vector UInt8 16) (index pc : Nat) :
    Outcome m i { m with registers := registers, index := index, pc := pc }
  | clear : Outcome m .clear { m with display := .blank, pc := m.pc + 2 }
  | draw (x y : Register) (rows : Fin 16) (display : Display) (registers : Vector UInt8 16) :
    Outcome m (.draw x y rows)
      { m with display := display, registers := registers, pc := m.pc + 2 }
  | storeDecimal (x : Register) (memory : Memory) :
    Outcome m (.storeDecimal x) { m with memory := memory, pc := m.pc + 2 }
  | store (x : Register) (memory : Memory) :
    Outcome m (.store x) { m with memory := memory, pc := m.pc + 2 }
  | ret (a : Nat) (rest : List Nat) (h : m.stack = a :: rest) :
    Outcome m .ret { m with pc := a, stack := rest }
  | call (a : Address) : Outcome m (.call a) { m with pc := a, stack := (m.pc + 2) :: m.stack }
  | setDelay (x : Register) :
    Outcome m (.setDelay x)
      { m with timers := { m.timers with delay := (m.register x).toNat }, pc := m.pc + 2 }
  | setSound (x : Register) :
    Outcome m (.setSound x)
      { m with timers := { m.timers with sound := (m.register x).toNat }, pc := m.pc + 2 }
  | random (x : Register) (mask : Fin 256) (registers : Vector UInt8 16) (source : σ) :
    Outcome m (.random x mask)
      { m with registers := registers, source := source, pc := m.pc + 2 }

variable [RandomSource σ] {m m' : Machine σ}

/-- **What an executed instruction leaves.** -/
theorem outcome_of_execute {i : Instruction} (he : m.execute i = .ok m') : Outcome m i m' := by
  cases i with
  | clear => cases he; exact .clear
  | ret =>
    rw [execute] at he
    cases hs : m.stack with
    | nil => rw [hs] at he; cases he
    | cons a rest =>
      rw [hs] at he
      cases he
      exact .ret a rest hs
  | call a =>
    rw [execute] at he
    split at he <;> cases he
    exact .call a
  | draw x y rows =>
    rw [execute_draw] at he
    split at he <;> cases he
    exact .draw ..
  | storeDecimal x =>
    rw [execute_storeDecimal] at he
    split at he <;> cases he
    exact .storeDecimal ..
  | store x =>
    rw [execute_store] at he
    split at he <;> cases he
    exact .store ..
  | setDelay x => cases he; exact .setDelay x
  | setSound x => cases he; exact .setSound x
  | random x mask => cases he; exact .random ..
  | restore x =>
    rw [execute_restore] at he
    split at he <;> cases he
    exact .inner ..
  | addIndex x =>
    rw [execute] at he
    dsimp only at he
    split at he <;> cases he
    · exact .inner ..
    · exact .inner ..
  | awaitRelease x =>
    rw [execute] at he
    split at he <;> cases he
    · exact .inner ..
    · -- the instruction waits, and nothing has been written
      exact .inner _ m.registers m.index m.pc
  | _ => cases he; exact .inner ..

/-- **What a step leaves**: the ticked machine with the fault, or what its instruction made of it. -/
theorem step_outcome (hm : m.fault = none) :
    (∃ f, m.step = ({ m.tick with keypad := m.keypad.consume, fault := some f }, .error f)) ∨
    ∃ i m', m.AtWord i.encode ∧ Outcome m.tick i m' ∧
      m.step = ({ m' with keypad := m'.keypad.consume, steps := m'.steps + 1 }, .ok i.draws) := by
  rcases step_cases hm with ⟨f, -, -, hs⟩ | ⟨i, m', hi, he, hs⟩
  · exact .inl ⟨f, hs⟩
  · exact .inr ⟨i, m', hi, outcome_of_execute he, hs⟩

end ChipEight.Machine
