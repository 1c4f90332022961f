import ChipEight.Proofs.KeyRelease

/-!
# Two machines side by side

What does a program get to see of the world outside? The clock, the keys and the random source are
all within reach of some instruction, and of nothing else: as long as a program executes none of
those that ask for the time or for a key (`Asks`), two machines that run it go through the same
states, however fast each of them is, whatever is pressed on either, and whenever. All that a run is
made of but the clock, the keys and the source itself is collected in `Core`, and the core of the
next machine is a matter of the core of this one and of the random byte that may be drawn.

The second machine is held against the first: only what the first one executes is restricted.
-/

namespace ChipEight

/-! ## Random bytes, counted -/

namespace RandomSource

variable {σ τ : Type} [RandomSource σ] [RandomSource τ]

/-- What is left of a source after `k` bytes. -/
def skip (s : σ) : Nat → σ
  | 0 => s
  | k + 1 => (next (skip s k)).2

/-- Byte `k` of a source, counted from zero. -/
def byteAt (s : σ) (k : Nat) : UInt8 := (next (skip s k)).1

/-- Two sources of the same bytes. -/
def SameBytes (s : σ) (t : τ) : Prop := ∀ k, byteAt s k = byteAt t k

/-- What is left of two sources after as many bytes from each. -/
def InStep (s₀ : σ) (t₀ : τ) (s : σ) (t : τ) : Prop := ∃ k, s = skip s₀ k ∧ t = skip t₀ k

theorem InStep.next {s₀ s : σ} {t₀ t : τ} (h : InStep s₀ t₀ s t) :
    InStep s₀ t₀ (next s).2 (next t).2 := by
  obtain ⟨k, rfl, rfl⟩ := h
  exact ⟨k + 1, rfl, rfl⟩

theorem InStep.byte_eq {s₀ s : σ} {t₀ t : τ} (h : InStep s₀ t₀ s t) (hsame : SameBytes s₀ t₀) :
    (RandomSource.next s).1 = (RandomSource.next t).1 := by
  obtain ⟨k, rfl, rfl⟩ := h
  exact hsame k

end RandomSource

open RandomSource

namespace Instruction

/-- The instructions that ask for the time or for a key. -/
def asks : Instruction → Bool
  | .readDelay _ | .awaitRelease _ | .skip (.keyDown _) | .skip (.keyUp _) => true
  | _ => false

/-- The instruction that draws a random byte. -/
def drawsByte : Instruction → Bool
  | .random .. => true
  | _ => false

end Instruction

/-- What a run changes in a machine, but for the clock, the keys and the random source. -/
structure Core where
  memory : Memory
  display : Display
  registers : Vector UInt8 16
  index : Nat
  pc : Nat
  stack : List Nat
  fault : Option Fault
  steps : Nat

namespace Machine

variable {σ τ : Type}

def core (m : Machine σ) : Core :=
  ⟨m.memory, m.display, m.registers, m.index, m.pc, m.stack, m.fault, m.steps⟩

/-- The word at `pc` asks for the time or for a key. -/
inductive Asks (m : Machine σ) : Prop where
  | delay {x : Register} (h : m.AtWord (0xF007 + 256 * x))
  | release {x : Register} (h : m.AtWord (0xF00A + 256 * x))
  | keyDown {x : Register} (h : m.AtWord (0xE09E + 256 * x))
  | keyUp {x : Register} (h : m.AtWord (0xE0A1 + 256 * x))

/-- The word at `pc` draws a random byte. -/
def DrawsByte (m : Machine σ) : Prop :=
  ∃ (x : Register) (mask : Fin 256), m.AtWord (0xC000 + 256 * x + mask)

/-- Two machines that have the same core, and have drawn as many bytes from the sources that they
were given. -/
structure Abreast (source₁ : σ) (source₂ : τ) [RandomSource σ] [RandomSource τ]
    (m₁ : Machine σ) (m₂ : Machine τ) : Prop where
  core : m₁.core = m₂.core
  source : InStep source₁ source₂ m₁.source m₂.source

/-- The steps that a host makes with a list of calls: what each of them has left, with its
answer. -/
def outcomes [RandomSource σ] (m : Machine σ) :
    List HostCall → List (Machine σ × Except Fault Bool)
  | [] => []
  | c :: cs => (if c = .step then [m.step] else []) ++ (m.perform c).1.outcomes cs

variable {m m' m₁ : Machine σ} {m₂ : Machine τ}

/-! ## What the word at `pc` draws on -/

theorem pc_of_core (hcore : m₁.core = m₂.core) : m₁.pc = m₂.pc := congrArg Core.pc hcore

theorem word_of_core (hcore : m₁.core = m₂.core) : m₁.word = m₂.word :=
  congrArg (fun c : Core => c.memory.wordAt c.pc) hcore

theorem asks_of_atWord {i : Instruction} (hi : m.AtWord i.encode) (h : i.asks = true) : m.Asks := by
  cases i with
  | readDelay x => exact .delay hi
  | awaitRelease x => exact .release hi
  | skip c =>
    cases c with
    | keyDown x => exact .keyDown hi
    | keyUp x => exact .keyUp hi
    | _ => cases h
  | _ => cases h

theorem drawsByte_of_atWord {i : Instruction} (hi : m.AtWord i.encode) (h : i.drawsByte = true) :
    m.DrawsByte := by
  cases i with
  | random x mask => exact ⟨x, mask, hi⟩
  | _ => cases h

variable [RandomSource σ] [RandomSource τ]

/-! ## One instruction on both machines -/

theorem core_execute_random (m : Machine σ) (x : Register) (mask : Fin 256) :
    (m.execute (.random x mask)).map core =
      .ok (m.setRegister x ((next m.source).1 &&& UInt8.ofNat mask)).core :=
  rfl

theorem core_execute_addIndex (m : Machine σ) (x : Register) :
    (m.execute (.addIndex x)).map core =
      let total := m.index + (m.register x).toNat
      .ok (if Memory.size ≤ total then
        { (m.setRegister flagRegister 1).core with index := total % Memory.size }
      else
        { m.core with index := total, pc := m.pc + 2 }) := by
  rw [execute]
  dsimp only
  split <;> rfl

/-- **The core decides about the core.** Up to a random byte, what an instruction makes of the core,
and whether it is refused, is the same on two machines with the same core. -/
theorem execute_core {i : Instruction} (hcore : m₁.core = m₂.core) (hasks : i.asks = false)
    (hbyte : i.drawsByte = true → (next m₁.source).1 = (next m₂.source).1) :
    (m₁.execute i).map core = (m₂.execute i).map core := by
  obtain ⟨program₁, memory, display, keypad₁, timers₁, registers, index, pc, stack, source₁, fault,
    steps⟩ := m₁
  obtain ⟨program₂, memory₂, display₂, keypad₂, timers₂, registers₂, index₂, pc₂, stack₂, source₂,
    fault₂, steps₂⟩ := m₂
  cases hcore
  -- what the two machines still differ in is read by five instructions only
  cases i with
  | readDelay x | awaitRelease x => cases hasks
  | skip c =>
    cases c with
    | keyDown x | keyUp x => cases hasks
    | _ => rfl
  | random x mask =>
    rw [core_execute_random, core_execute_random, hbyte rfl]
    rfl
  | ret => cases stack <;> rfl
  | call a =>
    rw [execute, execute]
    split <;> rfl
  | addIndex x =>
    rw [core_execute_addIndex, core_execute_addIndex]
    rfl
  | draw x y rows =>
    rw [execute_draw, execute_draw]
    dsimp only
    split <;> rfl
  | storeDecimal x =>
    rw [execute_storeDecimal, execute_storeDecimal]
    dsimp only
    split <;> rfl
  | store x =>
    rw [execute_store, execute_store]
    dsimp only
    split <;> rfl
  | restore x =>
    rw [execute_restore, execute_restore]
    dsimp only
    split <;> rfl
  | _ => rfl

/-- One byte is drawn at most, and by one instruction only. -/
theorem source_of_execute {i : Instruction} (he : m.execute i = .ok m') :
    m'.source = if i.drawsByte then (next m.source).2 else m.source := by
  cases i with
  | random x mask => cases he; rfl
  | _ => cases outcome_of_execute he <;> rfl

/-! ## One step on both machines -/

/-- Two computations with the same outcome are both refused, or neither is. -/
theorem map_eq_map_cases {ε α β γ : Type} {x : Except ε α} {y : Except ε β} {f : α → γ} {g : β → γ}
    (h : x.map f = y.map g) :
    (∃ e, x = .error e ∧ y = .error e) ∨ ∃ a b, x = .ok a ∧ y = .ok b ∧ f a = g b := by
  cases x with
  | error e =>
    cases y with
    | error e' => cases h; exact .inl ⟨e, rfl, rfl⟩
    | ok b => cases h
  | ok a =>
    cases y with
    | error e => cases h
    | ok b => exact .inr ⟨a, b, rfl, rfl, Except.ok.inj h⟩

variable {source₁ : σ} {source₂ : τ}

/-- A step that both machines are refused. -/
theorem Abreast.refused (h : Abreast source₁ source₂ m₁ m₂) {f : Fault}
    (hm₁ : m₁.fault = none) (hm₂ : m₂.fault = none)
    (hc₁ : m₁.tick.cycle = .error f) (hc₂ : m₂.tick.cycle = .error f) :
    m₁.step.2 = m₂.step.2 ∧ Abreast source₁ source₂ m₁.step.1 m₂.step.1 := by
  rw [step_of_cycle_error hm₁ hc₁, step_of_cycle_error hm₂ hc₂]
  exact ⟨rfl, congrArg (fun c : Core => { c with fault := some f }) h.core, h.source⟩

/-- A step for which both machines have an instruction. -/
theorem Abreast.executed (h : Abreast source₁ source₂ m₁ m₂) {i : Instruction}
    (hm₁ : m₁.fault = none) (hm₂ : m₂.fault = none) (hi : m₁.AtWord i.encode)
    (hasks : ¬ m₁.Asks) (hbyte : SameBytes source₁ source₂ ∨ ¬ m₁.DrawsByte) :
    m₁.step.2 = m₂.step.2 ∧ Abreast source₁ source₂ m₁.step.1 m₂.step.1 := by
  have hpc : m₁.tick.pc = m₂.tick.pc := pc_of_core h.core
  have hword : m₁.tick.word = m₂.tick.word := word_of_core h.core
  have hi₂ : m₂.AtWord i.encode := ⟨hpc ▸ hi.1, hword ▸ hi.2⟩
  have hasks : i.asks = false := Bool.eq_false_iff.mpr (mt (asks_of_atWord hi) hasks)
  have hexecute : (m₁.tick.execute i).map Machine.core = (m₂.tick.execute i).map Machine.core := by
    refine execute_core h.core hasks fun hdraws => ?_
    exact h.source.byte_eq (hbyte.resolve_right (not_not_intro (drawsByte_of_atWord hi hdraws)))
  rcases map_eq_map_cases hexecute with ⟨cause, he₁, he₂⟩ | ⟨n₁, n₂, he₁, he₂, hcore⟩
  · have hc₁ := cycle_of_atWord (m := m₁.tick) hi
    have hc₂ := cycle_of_atWord (m := m₂.tick) hi₂
    rw [he₁] at hc₁
    rw [he₂, ← hword, ← hpc] at hc₂
    exact h.refused hm₁ hm₂ hc₁ hc₂
  · rw [step_of_execute hm₁ hi he₁, step_of_execute hm₂ hi₂ he₂]
    refine ⟨rfl, congrArg (fun c : Core => { c with steps := c.steps + 1 }) hcore, ?_⟩
    show InStep source₁ source₂ n₁.source n₂.source
    rw [source_of_execute he₁, source_of_execute he₂]
    -- both draw, or neither does
    by_cases hdraws : i.drawsByte = true
    · rw [if_pos hdraws, if_pos hdraws]
      exact h.source.next
    · rw [if_neg hdraws, if_neg hdraws]
      exact h.source

/-- **A step keeps two machines abreast**, unless the first one asks for what may differ. -/
theorem Abreast.step (h : Abreast source₁ source₂ m₁ m₂)
    (hasks : m₁.fault = none → ¬ m₁.Asks)
    (hbyte : SameBytes source₁ source₂ ∨ (m₁.fault = none → ¬ m₁.DrawsByte)) :
    m₁.step.2 = m₂.step.2 ∧ Abreast source₁ source₂ m₁.step.1 m₂.step.1 := by
  have hfault : m₁.fault = m₂.fault := congrArg Core.fault h.core
  have hpc : m₁.tick.pc = m₂.tick.pc := pc_of_core h.core
  have hword : m₁.tick.word = m₂.tick.word := word_of_core h.core
  cases hm₁ : m₁.fault with
  | some f =>
    rw [step_of_fault hm₁, step_of_fault (hfault.symm.trans hm₁)]
    exact ⟨rfl, h⟩
  | none =>
    have hm₂ : m₂.fault = none := hfault.symm.trans hm₁
    rcases m₁.tick.word_cases with hlt | ⟨hle, hd⟩ | ⟨i, hi⟩
    · have hc₂ := cycle_of_lt (m := m₂.tick) (hpc ▸ hlt)
      rw [← hpc] at hc₂
      exact h.refused hm₁ hm₂ (cycle_of_lt hlt) hc₂
    · have hc₂ := cycle_of_undefined (m := m₂.tick) (hpc ▸ hle) (hword ▸ hd)
      rw [← hword, ← hpc] at hc₂
      exact h.refused hm₁ hm₂ (cycle_of_undefined hle hd) hc₂
    · exact h.executed hm₁ hm₂ hi (hasks hm₁) (hbyte.imp_right (· hm₁))

/-! ## Two runs -/

theorem after_of_movesKey (m : Machine σ) {keys : List HostCall}
    (hkeys : ∀ c ∈ keys, c.movesKey = true) : ∃ p, m.after keys = { m with keypad := p } := by
  induction keys generalizing m with
  | nil => exact ⟨m.keypad, rfl⟩
  | cons c cs ih =>
    obtain ⟨p, hp⟩ := m.perform_of_movesKey (hkeys c List.mem_cons_self)
    rw [after, hp]
    exact ih _ fun d hd => hkeys d (List.mem_cons_of_mem c hd)

theorem outcomes_of_movesKey (m : Machine σ) {keys : List HostCall}
    (hkeys : ∀ c ∈ keys, c.movesKey = true) (later : List HostCall) :
    m.outcomes (keys ++ later) = (m.after keys).outcomes later := by
  induction keys generalizing m with
  | nil => rfl
  | cons c cs ih =>
    have hstep : c ≠ .step := fun h => by cases h ▸ hkeys c List.mem_cons_self
    rw [List.cons_append, outcomes, if_neg hstep]
    exact ih _ fun d hd => hkeys d (List.mem_cons_of_mem c hd)

theorem outcomes_step (m : Machine σ) (cs : List HostCall) :
    m.outcomes (.step :: cs) = m.step :: m.step.1.outcomes cs :=
  rfl

/-- The host moves keys up to its first step, and has one step less to make from there on. -/
theorem exists_first_step {calls : List HostCall} (h : .step ∈ calls)
    (hcalls : ∀ c ∈ calls, c = .step ∨ c.movesKey = true) :
    ∃ keys later, calls = keys ++ .step :: later ∧ (∀ c ∈ keys, c.movesKey = true) ∧
      (∀ c ∈ later, c = .step ∨ c.movesKey = true) ∧
      calls.count .step = later.count .step + 1 := by
  obtain ⟨keys, later, rfl, hfirst⟩ := List.eq_append_cons_of_mem h
  refine ⟨keys, later, rfl, fun c hc => ?_, fun c hc => ?_, ?_⟩
  · exact (hcalls c (List.mem_append_left _ hc)).resolve_left fun hstep => hfirst (hstep ▸ hc)
  · exact hcalls c (List.mem_append_right _ (List.mem_cons_of_mem _ hc))
  · rw [List.count_append, List.count_eq_zero.mpr hfirst, List.count_cons_self, Nat.zero_add]

theorem Abreast.keys_left (h : Abreast source₁ source₂ m₁ m₂) {c : HostCall}
    (hc : c.movesKey = true) : Abreast source₁ source₂ (m₁.perform c).1 m₂ := by
  obtain ⟨p, hp⟩ := m₁.perform_of_movesKey hc
  rw [hp]
  exact ⟨h.core, h.source⟩

theorem Abreast.keys_right (h : Abreast source₁ source₂ m₁ m₂) {keys : List HostCall}
    (hkeys : ∀ c ∈ keys, c.movesKey = true) : Abreast source₁ source₂ m₁ (m₂.after keys) := by
  obtain ⟨p, hp⟩ := m₂.after_of_movesKey hkeys
  rw [hp]
  exact ⟨h.core, h.source⟩

/-- The first of the steps that a running machine is told to make is its own. -/
theorem of_stepped_step {P : Machine σ → Prop} {cs : List HostCall}
    (h : ∀ e ∈ m.stepped (.step :: cs), P e) (hm : m.fault = none) : P m := by
  rw [stepped_step hm] at h
  exact h m List.mem_cons_self

theorem of_stepped_cons {P : Machine σ → Prop} {c : HostCall} {cs : List HostCall}
    (h : ∀ e ∈ m.stepped (c :: cs), P e) : ∀ e ∈ (m.perform c).1.stepped cs, P e :=
  fun e he => h e (List.mem_append_right _ he)

/-- **Two runs stay abreast**, step by step. The calls of the first host are taken one after the
other, and the second host is let go on to its next step whenever the first one makes a step. -/
theorem outcomes_abreast {calls₁ calls₂ : List HostCall} (h : Abreast source₁ source₂ m₁ m₂)
    (hcalls₁ : ∀ c ∈ calls₁, c = .step ∨ c.movesKey = true)
    (hcalls₂ : ∀ c ∈ calls₂, c = .step ∨ c.movesKey = true)
    (hcount : calls₁.count .step = calls₂.count .step)
    (hasks : ∀ e ∈ m₁.stepped calls₁, ¬ e.Asks)
    (hbyte : SameBytes source₁ source₂ ∨ ∀ e ∈ m₁.stepped calls₁, ¬ e.DrawsByte) :
    List.Forall₂ (fun r₁ r₂ => r₁.2 = r₂.2 ∧ Abreast source₁ source₂ r₁.1 r₂.1)
      (m₁.outcomes calls₁) (m₂.outcomes calls₂) := by
  induction calls₁ generalizing m₁ m₂ calls₂ with
  | nil =>
    have hkeys : ∀ c ∈ calls₂, c.movesKey = true := by
      intro c hc
      refine (hcalls₂ c hc).resolve_left fun hstep => ?_
      exact List.count_eq_zero.mp hcount.symm (hstep ▸ hc)
    have hnil := m₂.outcomes_of_movesKey hkeys []
    rw [List.append_nil] at hnil
    rw [hnil]
    exact .nil
  | cons c cs ih =>
    have hcs : ∀ d ∈ cs, d = .step ∨ d.movesKey = true :=
      fun d hd => hcalls₁ d (List.mem_cons_of_mem c hd)
    have hasks' := of_stepped_cons hasks
    have hbyte' := hbyte.imp_right of_stepped_cons
    rcases hcalls₁ c List.mem_cons_self with rfl | hc
    · -- the second host has as many steps to make, so it gets to one, too
      rw [List.count_cons_self] at hcount
      have hstep : HostCall.step ∈ calls₂ := List.count_pos_iff.mp (by omega)
      obtain ⟨keys, later, rfl, hkeys, hlater, hfirst⟩ := exists_first_step hstep hcalls₂
      obtain ⟨hanswer, hnext⟩ :=
        (h.keys_right hkeys).step (of_stepped_step hasks) (hbyte.imp_right of_stepped_step)
      rw [m₂.outcomes_of_movesKey hkeys, outcomes_step, outcomes_step]
      exact .cons ⟨hanswer, hnext⟩ (ih hnext hcs hlater (by omega) hasks' hbyte')
    · have hstep : c ≠ .step := fun h => by cases h ▸ hc
      rw [List.count_cons_of_ne hstep] at hcount
      rw [outcomes, if_neg hstep]
      exact ih (h.keys_left hc) hcs hcalls₂ hcount hasks' hbyte'

/--
**Without asking, a program cannot tell.** Two machines with the same program make the same number
of steps, at any two speeds, with any keys moved between them. If none of the steps of the first
machine asks for the time or for a key, then step for step both give the same answer, faults
included, and leave the same core, with as many random bytes drawn. This takes two sources of the
same bytes, or a run on which the first machine draws none.
-/
theorem steps_abreast (program : Program) (speed₁ speed₂ : Speed) (source₁ : σ) (source₂ : τ) :
    ∃ (m₁ : Machine σ) (m₂ : Machine τ),
      build (.bytes program.bytes) (.int speed₁.perSecond) source₁ = .ok m₁ ∧
      build (.bytes program.bytes) (.int speed₂.perSecond) source₂ = .ok m₂ ∧
      ∀ calls₁ calls₂ : List HostCall,
        (∀ c ∈ calls₁, c = .step ∨ c.movesKey = true) →
        (∀ c ∈ calls₂, c = .step ∨ c.movesKey = true) →
        calls₁.count .step = calls₂.count .step →
        (∀ e ∈ m₁.stepped calls₁, ¬ e.Asks) →
        (SameBytes source₁ source₂ ∨ ∀ e ∈ m₁.stepped calls₁, ¬ e.DrawsByte) →
        List.Forall₂ (fun r₁ r₂ => r₁.2 = r₂.2 ∧ Abreast source₁ source₂ r₁.1 r₂.1)
          (m₁.outcomes calls₁) (m₂.outcomes calls₂) := by
  refine ⟨_, _, build_new program speed₁ source₁, build_new program speed₂ source₂, ?_⟩
  intro calls₁ calls₂
  exact outcomes_abreast ⟨rfl, 0, rfl, rfl⟩

/-- The delay is set to 3 and never asked for: the slower machine has counted it down to 1 when
both stop on the fourth word, with the same random number in register 1. -/
theorem steps_abreast_at_two_speeds :
    ∃ m₁ m₂ : Machine RepeatingBytes,
      build (.bytes [0x60, 0x03, 0xF0, 0x15, 0xC1, 0x0F]) (.int 700) (.ofList [0xA7]) = .ok m₁ ∧
      build (.bytes [0x60, 0x03, 0xF0, 0x15, 0xC1, 0x0F]) (.int 30) (.ofList [0xA7]) = .ok m₂ ∧
      let calls₁ := [HostCall.step, .press 3, .step, .step, .step]
      let calls₂ := [HostCall.release 1, .step, .step, .press 2, .press 9, .step, .release 9, .step]
      (∀ c ∈ calls₁, c = .step ∨ c.movesKey = true) ∧
      (∀ c ∈ calls₂, c = .step ∨ c.movesKey = true) ∧
      calls₁.count .step = calls₂.count .step ∧
      (∀ e ∈ m₁.stepped calls₁, ¬ e.Asks) ∧
      List.Forall₂
        (fun r₁ r₂ => r₁.2 = r₂.2 ∧
          Abreast (RepeatingBytes.ofList [0xA7]) (RepeatingBytes.ofList [0xA7]) r₁.1 r₂.1)
        (m₁.outcomes calls₁) (m₂.outcomes calls₂) ∧
      (m₂.after calls₂).fault = some ⟨.unimplemented, some 0x0000, 0x206⟩ ∧
      (m₂.after calls₂).register 1 = 7 ∧
      (m₁.after calls₁).timers.delay = 3 ∧ (m₂.after calls₂).timers.delay = 1 := by
  obtain ⟨m₁, m₂, hbuild₁, hbuild₂, h⟩ :=
    steps_abreast ⟨[0x60, 0x03, 0xF0, 0x15, 0xC1, 0x0F], by decide⟩ .default ⟨30, by decide⟩
      (RepeatingBytes.ofList [0xA7]) (RepeatingBytes.ofList [0xA7])
  have hm₁ : m₁ = new ⟨[0x60, 0x03, 0xF0, 0x15, 0xC1, 0x0F], by decide⟩ .default (.ofList [0xA7]) :=
    Except.ok.inj (hbuild₁.symm.trans rfl)
  have hm₂ : m₂ =
      new ⟨[0x60, 0x03, 0xF0, 0x15, 0xC1, 0x0F], by decide⟩ ⟨30, by decide⟩ (.ofList [0xA7]) :=
    Except.ok.inj (hbuild₂.symm.trans rfl)
  refine ⟨m₁, m₂, hbuild₁, hbuild₂, ?_⟩
  intro calls₁ calls₂
  obtain ⟨hwords, hdelay₁⟩ :
      (∀ e ∈ m₁.stepped calls₁, e.word ∈ [0x6003, 0xF015, 0xC10F, 0x0000]) ∧
        (m₁.after calls₁).timers.delay = 3 := by
    rw [hm₁]
    decide +kernel
  obtain ⟨hfault, hregister, hdelay₂⟩ :
      (m₂.after calls₂).fault = some ⟨.unimplemented, some 0x0000, 0x206⟩ ∧
        (m₂.after calls₂).register 1 = 7 ∧ (m₂.after calls₂).timers.delay = 1 := by
    rw [hm₂]
    decide +kernel
  have hasks : ∀ e ∈ m₁.stepped calls₁, ¬ e.Asks := by
    intro e he hasks
    have hword := hwords e he
    simp only [List.mem_cons, List.not_mem_nil, or_false] at hword
    cases hasks with
    | delay h | release h | keyDown h | keyUp h =>
      have := h.2
      omega
  have hcalls₁ : ∀ c ∈ calls₁, c = .step ∨ c.movesKey = true := by decide
  have hcalls₂ : ∀ c ∈ calls₂, c = .step ∨ c.movesKey = true := by decide
  have hcount : calls₁.count .step = calls₂.count .step := by decide
  exact ⟨hcalls₁, hcalls₂, hcount, hasks,
    h calls₁ calls₂ hcalls₁ hcalls₂ hcount hasks (.inl fun _ => rfl), hfault, hregister, hdelay₁,
    hdelay₂⟩

end Machine

end ChipEight
