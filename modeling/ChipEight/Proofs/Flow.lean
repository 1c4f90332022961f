import ChipEight.Proofs.Frame
import ChipEight.Proofs.Subroutines

/-!
# Where a step leads

What comes next is decided by the word at `pc` and by what the machine holds when it gets there.
Most words lead to the next word, whatever else they do. Those that may lead elsewhere (`Diverts`)
are taken one kind at a time; the six skips are one kind, since each has a word and a condition of
its own (`SkipsIf`) and all are executed alike.
-/

namespace ChipEight.Machine

open Instruction

variable {σ : Type}

/-- The words that skip, each with the condition under which it does. -/
inductive SkipsIf (m : Machine σ) : Nat → Prop → Prop where
  | equalsByte (x : Register) (b : Fin 256) :
    SkipsIf m (0x3000 + 256 * x + b) ((m.register x).toNat = b)
  | differsByte (x : Register) (b : Fin 256) :
    SkipsIf m (0x4000 + 256 * x + b) ((m.register x).toNat ≠ b)
  | equals (x y : Register) : SkipsIf m (0x5000 + 256 * x + 16 * y) (m.register x = m.register y)
  | differs (x y : Register) : SkipsIf m (0x9000 + 256 * x + 16 * y) (m.register x ≠ m.register y)
  /-- A register names a key by its low nibble. -/
  | keyDown (x : Register) :
    SkipsIf m (0xE09E + 256 * x)
      (m.keypad.isDown (Fin.ofNat 16 (m.register x).toNat) = true)
  | keyUp (x : Register) :
    SkipsIf m (0xE0A1 + 256 * x)
      (m.keypad.isDown (Fin.ofNat 16 (m.register x).toNat) = false)

/-- `n` is where a step of `m` has led that was not refused. -/
structure LeadsTo (m n : Machine σ) : Prop where
  /-- No other word is executed. -/
  defined : m.pc ≤ 0xFFE ∧ IsDefined m.word
  jump : ∀ a : Address, m.AtWord (0x1000 + a) → n.pc = a
  call : ∀ a : Address, m.AtWord (0x2000 + a) → n.pc = a ∧ n.stack = (m.pc + 2) :: m.stack
  ret : m.AtWord 0x00EE → m.stack = n.pc :: n.stack
  /-- The sum may lie outside memory. -/
  offset : ∀ a : Address, m.AtWord (0xB000 + a) → n.pc = a + (m.register 0).toNat
  skip : ∀ {w p}, m.SkipsIf w p → m.AtWord w →
    (p → n.pc = m.pc + 4) ∧ (¬ p → n.pc = m.pc + 2)
  await : ∀ x : Register, m.AtWord (0xF00A + 256 * x) →
    n.pc = if m.keypad.released = none then m.pc else m.pc + 2
  next : ¬ Diverts m.word → n.pc = m.pc + 2
  stack : m.word / 0x1000 ≠ 0x2 → m.word ≠ 0x00EE → n.stack = m.stack

variable {m m' : Machine σ}

theorem SkipsIf.condition {w : Nat} {p : Prop} (h : m.SkipsIf w p) :
    ∃ c : Condition, w = (Instruction.skip c).encode ∧ (m.holds c = true ↔ p) := by
  cases h with
  | equalsByte x b => exact ⟨.equalsByte x b, rfl, decide_eq_true_iff⟩
  | differsByte x b => exact ⟨.differsByte x b, rfl, decide_eq_true_iff⟩
  | equals x y => exact ⟨.equals x y, rfl, decide_eq_true_iff⟩
  | differs x y => exact ⟨.differs x y, rfl, decide_eq_true_iff⟩
  | keyDown x => exact ⟨.keyDown x, rfl, Iff.rfl⟩
  | keyUp x => exact ⟨.keyUp x, rfl, (Bool.not_eq_true' _).to_iff⟩

variable [RandomSource σ]

/-- Where a step leads is where its instruction leads. -/
theorem pc_of_ok (hm : m.fault = none) {redraw : Bool} (hok : m.step.2 = .ok redraw)
    {i : Instruction} (hi : m.AtWord i.encode) :
    ∃ m', m.tick.execute i = .ok m' ∧ m.step.1.pc = m'.pc := by
  obtain ⟨m', he, -, hs⟩ := executed_of_ok hm hok hi
  exact ⟨m', he, by rw [hs]⟩

theorem step_skip (hm : m.fault = none) {redraw : Bool} (hok : m.step.2 = .ok redraw)
    {w : Nat} {p : Prop} (hskip : m.SkipsIf w p) (hw : m.AtWord w) :
    (p → m.step.1.pc = m.pc + 4) ∧ (¬ p → m.step.1.pc = m.pc + 2) := by
  obtain ⟨c, rfl, hholds⟩ := hskip.condition
  obtain ⟨m', he, hpc⟩ := pc_of_ok hm hok hw
  cases he
  have hpc : m.step.1.pc = if m.holds c then m.pc + 4 else m.pc + 2 := hpc
  rw [hpc, ← hholds]
  exact ⟨fun h => if_pos h, fun h => if_neg h⟩

theorem step_await (hm : m.fault = none) {x : Register} (hw : m.AtWord (0xF00A + 256 * x)) :
    m.step.1.pc = if m.keypad.released = none then m.pc else m.pc + 2 := by
  cases hr : m.keypad.released with
  | none =>
    rw [step_waits hm hw hr]
    rfl
  | some k =>
    rw [if_neg (Option.some_ne_none k)]
    exact (step_takes hm hw hr).2.1

/--
**Where a step leads** is known beforehand. A step that is not refused goes to the address that its
word names, to the one on top of the stack, past the next word, to the next word or nowhere, and it
is the word and the machine before the step that decide. Only calls and returns touch the stack.
-/
theorem step_leads (hm : m.fault = none) {redraw : Bool} (hok : m.step.2 = .ok redraw) :
    LeadsTo m m.step.1 := by
  obtain ⟨i, hi⟩ := atWord_of_ok hm hok
  constructor
  case defined => exact ⟨hi.1, hi.2 ▸ isDefined_encode i⟩
  case jump =>
    intro a hw
    obtain ⟨m', he, hpc⟩ := pc_of_ok hm hok (i := .jump a) hw
    cases he
    exact hpc
  case call =>
    intro a hw
    obtain ⟨m', he, -, hs⟩ := executed_of_ok hm hok (i := .call a) hw
    rw [execute] at he
    split at he <;> cases he
    rw [hs]
    exact ⟨rfl, rfl⟩
  case ret =>
    intro hw
    obtain ⟨m', he, -, hs⟩ := executed_of_ok hm hok (i := .ret) hw
    rw [execute] at he
    -- with an empty stack it would have been refused
    split at he <;> cases he
    rename_i hstack
    rw [hs]
    exact hstack
  case offset =>
    intro a hw
    obtain ⟨m', he, hpc⟩ := pc_of_ok hm hok (i := .jumpOffset a) hw
    cases he
    exact hpc
  case skip => exact step_skip hm hok
  case await => exact fun x hw => step_await hm hw
  case next =>
    intro hplain
    obtain ⟨m', he, hpc⟩ := pc_of_ok hm hok hi
    exact hpc.trans ((inner_of_execute hi he).pc.resolve_left hplain)
  case stack =>
    intro hcall hret
    rcases m.step_stack with hs | ⟨a, hw, -⟩ | ⟨hw, -, -⟩
    · exact hs
    · have hword := hw.2
      omega
    · exact absurd hw.2 hret

/-- Register 0 holds 0x15, which names key 5, and key 5 is down: the skip is taken. -/
theorem step_leads_past_key :
    let m := (holding ⟨[0x60, 0x15, 0xE0, 0x9E], by decide⟩).after [.step, .press 5]
    (m.fault = none ∧ m.step.2 = .ok false) ∧ LeadsTo m m.step.1 ∧ m.step.1.pc = 0x206 := by
  intro m
  obtain ⟨hm, hok, hw, hpc, hdown⟩ :
      m.fault = none ∧ m.step.2 = .ok false ∧ (m.pc ≤ 0xFFE ∧ m.word = 0xE09E + 256 * 0) ∧
        m.pc = 0x202 ∧ m.keypad.isDown (Fin.ofNat 16 (m.register 0).toNat) = true := by
    decide +kernel
  have hleads := step_leads hm hok
  refine ⟨⟨hm, hok⟩, hleads, ?_⟩
  rw [(hleads.skip (.keyDown 0) hw).1 hdown, hpc]

end ChipEight.Machine
