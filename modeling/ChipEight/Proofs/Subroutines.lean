import ChipEight.Proofs.Outcome
import ChipEight.Proofs.Trace

/-!
# Calls and returns

A call puts its return address on the stack, and what lies below is out of reach until the stack
has come back to that address: a step adds one address, takes one off or leaves the stack alone
(`step_stack`). So as long as the stack is higher than before the call, it ends in what it was right
after the call (`CallOpen`), and the step that brings it down again can only be the return from it.
-/

namespace ChipEight.Machine

variable {σ : Type} [RandomSource σ]

/-- **What a step does to the stack**: nothing, a call or a return. -/
theorem step_stack (n : Machine σ) :
    n.step.1.stack = n.stack ∨
    (∃ a : Address, n.AtWord (0x2000 + a) ∧ n.step.1.stack = (n.pc + 2) :: n.stack) ∨
    n.AtWord 0x00EE ∧ n.step.2 = .ok false ∧ n.stack = n.step.1.pc :: n.step.1.stack := by
  cases hn : n.fault with
  | some f =>
    left
    rw [step_of_fault hn]
  | none =>
    rcases step_outcome hn with ⟨f, hs⟩ | ⟨i, n', hi, ho, hs⟩
    · left
      rw [hs]
      rfl
    · rw [hs]
      cases ho with
      | ret a rest h => exact .inr (.inr ⟨hi, rfl, h⟩)
      | call a => exact .inr (.inl ⟨a, hi, rfl⟩)
      | _ => exact .inl rfl

theorem step_call {m : Machine σ} (hm : m.fault = none) {a : Address}
    (hw : m.AtWord (0x2000 + a)) (hdepth : m.stack.length < 16) :
    m.step.2 = .ok false ∧ m.step.1.stack = (m.pc + 2) :: m.stack := by
  have he : m.tick.execute (.call a) =
      .ok { m.tick with pc := a, stack := (m.pc + 2) :: m.stack } := if_pos hdepth
  have hi : m.AtWord (Instruction.call a).encode := hw
  rw [step_of_execute hm hi he]
  exact ⟨rfl, rfl⟩

/-- As long as no step has brought the stack down to `below`, it ends in `below` with the return
address on top. -/
def CallOpen (ret : Nat) (below : List Nat) (es : List (Machine σ)) (n : Machine σ) : Prop :=
  (∀ e ∈ es, below.length + 1 ≤ e.step.1.stack.length) → ∃ above, n.stack = above ++ ret :: below

theorem callOpen_step {ret : Nat} {below : List Nat} {es : List (Machine σ)} {n : Machine σ}
    (h : CallOpen ret below es n) : CallOpen ret below (es ++ [n]) n.step.1 := by
  intro hhigh
  have hn := hhigh n (List.mem_append_right _ List.mem_cons_self)
  obtain ⟨above, habove⟩ := h fun e he => hhigh e (List.mem_append_left _ he)
  rcases n.step_stack with hs | ⟨a, -, hs⟩ | ⟨-, -, hs⟩
  · exact ⟨above, hs.trans habove⟩
  · exact ⟨(n.pc + 2) :: above, by rw [hs, habove]; rfl⟩
  · rw [habove] at hs
    cases above with
    | nil =>
      -- the return address itself would be gone, and with it the height
      have hbelow := (List.cons.inj hs).2
      rw [← hbelow] at hn
      omega
    | cons b above => exact ⟨above, (List.cons.inj hs).2.symm⟩

theorem callOpen_traced (ret : Nat) (below : List Nat) :
    Traced (CallOpen ret below (σ := σ)) where
  step _ _ _ h := callOpen_step h
  keypad _ _ _ h := h
  memory _ _ _ h := h

/-- A step down to `below` from a stack that ends in it takes the return address off. -/
theorem return_of_callOpen {ret : Nat} {below above : List Nat} {e : Machine σ}
    (he : e.stack = above ++ ret :: below) (hdown : e.step.1.stack.length = below.length) :
    e.AtWord 0x00EE ∧ e.step.2 = .ok false ∧ e.step.1.pc = ret ∧ e.step.1.stack = below := by
  have hheight := congrArg List.length he
  rw [List.length_append, List.length_cons] at hheight
  rcases e.step_stack with hs | ⟨a, -, hs⟩ | ⟨hw, hok, hs⟩
  · rw [hs] at hdown
    omega
  · rw [hs, List.length_cons] at hdown
    omega
  · have hlength := congrArg List.length hs
    rw [List.length_cons] at hlength
    have habove : above = [] := List.eq_nil_of_length_eq_zero (by omega)
    rw [he, habove] at hs
    obtain ⟨hpc, hstack⟩ := List.cons.inj hs
    exact ⟨hw, hok, hpc.symm, hstack.symm⟩

/--
**Calls are balanced.** Whatever runs after a call, and whatever the host does short of a reset: the
step that first brings the stack back to its height before the call is a return, it goes on behind
the call, and the stack is what it was. No step changes the height by more than one, and only calls
and returns change the stack at all.
-/
theorem call_returns {m : Machine σ} (hm : m.fault = none) {a : Address}
    (hw : m.AtWord (0x2000 + a)) (hdepth : m.stack.length < 16) :
    (m.step.2 = .ok false ∧ m.step.1.stack = (m.pc + 2) :: m.stack) ∧
    (∀ calls : List HostCall, .reset ∉ calls → ∀ deep e later,
      m.step.1.stepped calls = deep ++ e :: later →
      (∀ n ∈ deep, m.stack.length + 1 ≤ n.step.1.stack.length) →
      e.step.1.stack.length = m.stack.length →
      e.AtWord 0x00EE ∧ e.step.2 = .ok false ∧ e.step.1.pc = m.pc + 2 ∧
        e.step.1.stack = m.stack) ∧
    ∀ n : Machine σ,
      (n.step.1.stack.length ≤ n.stack.length + 1 ∧
        n.stack.length ≤ n.step.1.stack.length + 1) ∧
      (n.step.1.stack ≠ n.stack → n.AtWord 0x00EE ∨ ∃ b : Address, n.AtWord (0x2000 + b)) := by
  have hcall := step_call hm hw hdepth
  refine ⟨hcall, ?_, fun n => ⟨?_, fun hchange => ?_⟩⟩
  · intro calls hreset deep e later hsteps hdeep hdown
    have hopen : CallOpen (m.pc + 2) m.stack [] m.step.1 := fun _ => ⟨[], hcall.2⟩
    obtain ⟨-, he⟩ := (callOpen_traced _ _).before_step hreset hopen hsteps
    obtain ⟨above, habove⟩ := he hdeep
    exact return_of_callOpen habove hdown
  · rcases n.step_stack with hs | ⟨b, -, hs⟩ | ⟨-, -, hs⟩
    · rw [hs]
      omega
    · rw [hs, List.length_cons]
      omega
    · have hlength := congrArg List.length hs
      rw [List.length_cons] at hlength
      omega
  · rcases n.step_stack with hs | ⟨b, hb, -⟩ | ⟨hr, -, -⟩
    · exact absurd hs hchange
    · exact .inr ⟨b, hb⟩
    · exact .inl hr

/-- A subroutine that calls another one. The inner return does not yet end the outer call. -/
theorem call_returns_from_nested :
    let m := holding ⟨[0x22, 0x04, 0x12, 0x02, 0x22, 0x08, 0x00, 0xEE, 0x00, 0xEE], by decide⟩
    let outer := m.step.1
    let inner := outer.step.1
    let back := inner.step.1
    (m.fault = none ∧ m.AtWord (0x2000 + (0x204 : Address)) ∧ m.stack.length < 16) ∧
      HostCall.reset ∉ [HostCall.step, .step, .step] ∧
      outer.stepped [.step, .step, .step] = [outer, inner] ++ back :: [] ∧
      (∀ n ∈ [outer, inner], m.stack.length + 1 ≤ n.step.1.stack.length) ∧
      back.step.1.stack.length = m.stack.length ∧
      back.AtWord 0x00EE ∧ back.step.1.pc = 0x202 ∧ back.step.1.stack = [] := by
  intro m outer inner back
  obtain ⟨hw, houter, hinner, hback, hhigh, hhigh', hdown⟩ :
      (m.pc ≤ 0xFFE ∧ m.word = 0x2000 + (0x204 : Address)) ∧ outer.fault = none ∧
        inner.fault = none ∧ back.fault = none ∧
        m.stack.length + 1 ≤ outer.step.1.stack.length ∧
        m.stack.length + 1 ≤ inner.step.1.stack.length ∧
        back.step.1.stack.length = m.stack.length := by
    decide +kernel
  have hdepth : m.stack.length < 16 := by decide
  have hreset : HostCall.reset ∉ [HostCall.step, .step, .step] := by decide
  have hsteps : outer.stepped [.step, .step, .step] = [outer, inner] ++ back :: [] := by
    rw [stepped_step houter, stepped_step hinner, stepped_step hback]
    rfl
  have hdeep : ∀ n ∈ [outer, inner], m.stack.length + 1 ≤ n.step.1.stack.length := by
    intro n hn
    rcases List.mem_cons.mp hn with rfl | hn
    · exact hhigh
    · rw [List.mem_singleton.mp hn]
      exact hhigh'
  obtain ⟨-, hreturn, -⟩ := call_returns rfl hw hdepth
  obtain ⟨hret, -, hpc, hstack⟩ := hreturn _ hreset _ _ _ hsteps hdeep hdown
  exact ⟨⟨rfl, hw, hdepth⟩, hreset, hsteps, hdeep, hdown, hret, hpc, hstack⟩

end ChipEight.Machine
