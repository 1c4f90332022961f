import ChipEight.Proofs.History
import ChipEight.Proofs.Outcome

/-!
# A reset is a fresh start

A machine keeps its program and its speed, whatever is done to it, and everything else is set anew
by a reset except for the random source. So a machine that is reset is the machine that would be
built at this moment from the same program, at the same speed and on what is left of the random
source. Whoever drives it from then on cannot tell the two apart by an answer or by a state
(`transcript`).
-/

namespace ChipEight.Machine

variable {σ : Type}

/-! ## What a machine was built from -/

/-- Built from this program, to run at this speed. -/
def Built (program : Program) (speed : Speed) (m : Machine σ) : Prop :=
  m.program = program ∧ m.timers.speed = speed

variable {program : Program} {speed : Speed} {m : Machine σ}

/-- A reset machine is a new one that takes over the random source. -/
theorem reset_of_built (h : Built program speed m) : m.reset = new program speed m.source := by
  obtain ⟨rfl, rfl⟩ := h
  rfl

theorem tick_speed (m : Machine σ) : m.tick.timers.speed = m.timers.speed := by
  unfold tick Timers.tick
  dsimp only
  split <;> rfl

variable [RandomSource σ]

theorem built_step (h : Built program speed m) : Built program speed m.step.1 := by
  have htick : Built program speed m.tick := ⟨h.1, m.tick_speed.trans h.2⟩
  cases hm : m.fault with
  | some f =>
    rw [step_of_fault hm]
    exact h
  | none =>
    rcases step_outcome hm with ⟨f, hs⟩ | ⟨i, m', -, ho, hs⟩
    · rw [hs]
      exact htick
    · rw [hs]
      cases ho <;> exact htick

theorem built_kept (program : Program) (speed : Speed) : Kept (Built program speed (σ := σ)) where
  step _ h := built_step h
  reset _ h := h
  keypad _ _ h := h
  memory _ _ h := h

/-! ## Two machines from the reset on -/

theorem reset_after (program : Program) (speed : Speed) (source : σ) (calls : List HostCall) :
    ((new program speed source).after calls).reset =
      new program speed ((new program speed source).after calls).source :=
  reset_of_built ((built_kept program speed).after ⟨rfl, rfl⟩ calls)

/-- What a host gets to see while it makes its calls: after each one the answer and the machine. -/
def transcript (m : Machine σ) : List HostCall → List (Except HostError (Option Bool) × Machine σ)
  | [] => []
  | c :: cs => ((m.perform c).2, (m.perform c).1) :: (m.perform c).1.transcript cs

theorem transcript_append (m : Machine σ) (cs ds : List HostCall) :
    m.transcript (cs ++ ds) = m.transcript cs ++ (m.after cs).transcript ds := by
  induction cs generalizing m with
  | nil => rfl
  | cons c cs ih =>
    rw [List.cons_append, transcript, ih, transcript, after]
    rfl

/--
**A reset is a fresh start.** Whatever has happened before it, also if the machine has stopped or
its program and its font have been overwritten: from the reset on, every answer and every state is
that of a machine newly built from the same bytes, at the same speed and on the random source as it
stands at the reset.
-/
theorem reset_starts_fresh (program : Program) (speed : Speed) (source : σ) :
    ∃ m₀ : Machine σ,
      build (.bytes program.bytes) (.int speed.perSecond) source = .ok m₀ ∧
      ∀ before : List HostCall, ∃ fresh : Machine σ,
        build (.bytes program.bytes) (.int speed.perSecond) (m₀.after before).source = .ok fresh ∧
        ∀ later : List HostCall,
          m₀.transcript (before ++ .reset :: later) =
            m₀.transcript before ++ (.ok none, fresh) :: fresh.transcript later := by
  refine ⟨_, build_new program speed source, fun before => ⟨_, build_new program speed _, ?_⟩⟩
  intro later
  have hreset := reset_after program speed source before
  rw [transcript_append, transcript]
  show _ ++ (Except.ok none, ((new program speed source).after before).reset) ::
    ((new program speed source).after before).reset.transcript later = _
  rw [hreset]

end ChipEight.Machine
