import ChipEight.Proofs.FreshStart
import ChipEight.Proofs.Halt
import Mathlib.Algebra.GroupWithZero.Nat

/-!
# A frame is so many steps

A frame is nothing that a host could not do by itself: it is a number of steps, one after the other,
up to the first that faults. How many they are depends on the speed and the rate alone, and the
speed never changes, so frames at any rates add up. What a host sees of its calls is their
`transcript`; the machine `Accepts` calls if it refuses none of them.
-/

namespace ChipEight

namespace Machine

variable {σ : Type} {m m' : Machine σ}

/-- How many steps a frame makes, as a host reckons it. -/
def frameSteps (m : Machine σ) (fps : Int) : Nat := max 1 (m.timers.speed.perSecond / fps).toNat

theorem stepsPerFrame_toNat (m : Machine σ) {fps : Int} (h : 0 < fps) :
    m.timers.speed.stepsPerFrame fps.toNat = m.frameSteps fps := by
  obtain ⟨n, rfl⟩ := Int.eq_ofNat_of_zero_le (Int.le_of_lt h)
  rw [frameSteps, Speed.stepsPerFrame, ← Int.natCast_ediv, Int.toNat_natCast, Int.toNat_natCast]

variable [RandomSource σ]

/-- `m` refuses none of these calls. -/
def Accepts (m : Machine σ) (calls : List HostCall) : Prop :=
  ∀ r ∈ m.transcript calls, ∃ answer, r.1 = .ok answer

theorem accepts_nil (m : Machine σ) : m.Accepts [] := by
  intro r hr
  cases hr

theorem accepts_cons {c : HostCall} {cs : List HostCall} :
    m.Accepts (c :: cs) ↔
      (∃ answer, (m.perform c).2 = .ok answer) ∧ (m.perform c).1.Accepts cs :=
  List.forall_mem_cons

theorem accepts_append {cs ds : List HostCall} :
    m.Accepts (cs ++ ds) ↔ m.Accepts cs ∧ (m.after cs).Accepts ds := by
  rw [Accepts, transcript_append]
  exact List.forall_mem_append

/-- Some call was answered by `answer`. -/
def Answers (m : Machine σ) (calls : List HostCall) (answer : Option Bool) : Prop :=
  ∃ r ∈ m.transcript calls, r.1 = .ok answer

theorem answers_cons {c : HostCall} {cs : List HostCall} {answer : Option Bool} :
    m.Answers (c :: cs) answer ↔
      (m.perform c).2 = .ok answer ∨ (m.perform c).1.Answers cs answer := by
  simp only [Answers, transcript, List.mem_cons, exists_eq_or_imp]

/-- So many steps, one after the other. -/
def stepCalls (n : Nat) : List HostCall := List.replicate n .step

theorem stepCalls_add (n k : Nat) : stepCalls (n + k) = stepCalls n ++ stepCalls k :=
  List.replicate_append_replicate.symm

/-! ## One step more -/

theorem perform_step_of_ok {redraw : Bool} (h : m.step = (m', .ok redraw)) :
    m.perform .step = (m', .ok (some redraw)) := by
  rw [perform, h]
  rfl

theorem perform_step_of_error {f : Fault} (h : m.step = (m', .error f)) :
    m.perform .step = (m', .error (.fault f)) := by
  rw [perform, h]
  rfl

theorem step_of_perform_error {f : Fault} (h : m.perform .step = (m', .error (.fault f))) :
    m.step = (m', .error f) := by
  rcases hs : m.step with ⟨m₁, now | now⟩
  · rw [perform_step_of_error hs] at h
    cases h
    rfl
  · rw [perform_step_of_ok hs] at h
    cases h

theorem accepts_stepCalls_succ {redraw : Bool} (h : m.step = (m', .ok redraw)) (n : Nat) :
    m.Accepts (stepCalls (n + 1)) ↔ m'.Accepts (stepCalls n) := by
  rw [stepCalls, List.replicate_succ, accepts_cons, perform_step_of_ok h]
  exact and_iff_right ⟨_, rfl⟩

theorem not_accepts_stepCalls_succ {f : Fault} (h : m.step = (m', .error f)) (n : Nat) :
    ¬ m.Accepts (stepCalls (n + 1)) := by
  rw [stepCalls, List.replicate_succ, accepts_cons, perform_step_of_error h]
  rintro ⟨⟨answer, hanswer⟩, -⟩
  cases hanswer

theorem after_stepCalls_succ {redraw : Bool} (h : m.step = (m', .ok redraw)) (n : Nat) :
    m.after (stepCalls (n + 1)) = m'.after (stepCalls n) := by
  rw [stepCalls, List.replicate_succ, after, perform_step_of_ok h]
  rfl

theorem answers_stepCalls_succ {redraw : Bool} (h : m.step = (m', .ok redraw)) (n : Nat) :
    m.Answers (stepCalls (n + 1)) (some true) ↔
      redraw = true ∨ m'.Answers (stepCalls n) (some true) := by
  rw [stepCalls, List.replicate_succ, answers_cons, perform_step_of_ok h]
  refine or_congr_left ⟨fun h => ?_, fun h => ?_⟩
  · cases h
    rfl
  · rw [h]

/-- A step that is not refused is counted, and the machine goes on. -/
theorem counted_of_ok {redraw : Bool} (h : m.step = (m', .ok redraw)) :
    m'.fault = none ∧ m'.steps = m.steps + 1 := by
  cases hm : m.fault with
  | some f =>
    rw [step_of_fault hm] at h
    cases h
  | none =>
    rcases step_outcome hm with ⟨f, hs⟩ | ⟨i, n, -, ho, hs⟩
    · rw [hs] at h
      cases h
    · rw [hs] at h
      cases h
      cases ho <;> exact ⟨hm, rfl⟩

/-! ## Many steps -/

/-- A run of steps that is not cut short is counted, and the machine goes on. -/
theorem counted_of_runSteps_ok {n : Nat} {redraw b : Bool} (hm : m.fault = none)
    (h : m.runSteps n redraw = (m', .ok b)) : m'.fault = none ∧ m'.steps = m.steps + n := by
  induction n generalizing m redraw with
  | zero =>
    cases h
    exact ⟨hm, rfl⟩
  | succ n ih =>
    rcases hs : m.step with ⟨m₁, f | now⟩
    · rw [runSteps, hs] at h
      cases h
    · rw [runSteps, hs] at h
      obtain ⟨hfault, hcount⟩ := counted_of_ok hs
      obtain ⟨hfault', hcount'⟩ := ih hfault h
      exact ⟨hfault', by omega⟩

theorem speed_of_runSteps (m : Machine σ) (n : Nat) (redraw : Bool) :
    (m.runSteps n redraw).1.timers.speed = m.timers.speed := by
  have hbuilt : Built m.program m.timers.speed m := ⟨rfl, rfl⟩
  exact (runSteps_kept (fun _ h => built_step h) n redraw hbuilt).2

/-- **Steps that all succeed** are made one after the other, and the redraw of any of them is one of
all. -/
theorem runSteps_of_accepts {n : Nat} (redraw : Bool) (h : m.Accepts (stepCalls n)) :
    ∃ b, m.runSteps n redraw = (m.after (stepCalls n), .ok b) ∧
      (b = true ↔ redraw = true ∨ m.Answers (stepCalls n) (some true)) ∧
      (m.after (stepCalls n)).steps = m.steps + n := by
  induction n generalizing m redraw with
  | zero =>
    refine ⟨redraw, rfl, ⟨.inl, ?_⟩, rfl⟩
    rintro (h | ⟨r, hr, -⟩)
    · exact h
    · cases hr
  | succ n ih =>
    rcases hs : m.step with ⟨m', now | now⟩
    · exact absurd h (not_accepts_stepCalls_succ hs n)
    · obtain ⟨b, hrun, hb, hsteps⟩ :=
        ih (redraw || now) ((accepts_stepCalls_succ hs n).mp h)
      rw [runSteps, hs, after_stepCalls_succ hs, answers_stepCalls_succ hs, ← or_assoc,
        ← Bool.or_eq_true]
      refine ⟨b, hrun, hb, ?_⟩
      rw [hsteps, (counted_of_ok hs).2]
      omega

/-- **Steps up to a fault** end with it. -/
theorem runSteps_of_fault {n k : Nat} {redraw : Bool} {f : Fault} (hk : k < n)
    (h : m.Accepts (stepCalls k)) (hf : (m.after (stepCalls k)).step = (m', .error f)) :
    m.runSteps n redraw = (m', .error f) := by
  induction k generalizing m n redraw with
  | zero =>
    obtain ⟨n, rfl⟩ := Nat.exists_eq_add_of_lt hk
    have hs : m.step = (m', .error f) := hf
    rw [Nat.zero_add, runSteps, hs]
  | succ k ih =>
    obtain ⟨n, rfl⟩ := Nat.exists_eq_add_of_le' (Nat.lt_of_le_of_lt (Nat.zero_le _) hk)
    rcases hs : m.step with ⟨m₁, now | now⟩
    · exact absurd h (not_accepts_stepCalls_succ hs k)
    · rw [after_stepCalls_succ hs] at hf
      rw [runSteps, hs]
      exact ih (Nat.lt_of_succ_lt_succ hk) ((accepts_stepCalls_succ hs k).mp h) hf

/-- Steps all succeed, or one of them is the first to fault. -/
theorem accepts_or_faults (m : Machine σ) (n : Nat) :
    m.Accepts (stepCalls n) ∨
      ∃ k < n, m.Accepts (stepCalls k) ∧
        ∃ m' f, (m.after (stepCalls k)).step = (m', .error f) := by
  induction n generalizing m with
  | zero => exact .inl m.accepts_nil
  | succ n ih =>
    rcases hs : m.step with ⟨m', now | now⟩
    · exact .inr ⟨0, Nat.succ_pos n, m.accepts_nil, m', now, hs⟩
    · rcases ih m' with h | ⟨k, hk, h, hfault⟩
      · exact .inl ((accepts_stepCalls_succ hs n).mpr h)
      · refine .inr ⟨k + 1, Nat.succ_lt_succ hk, (accepts_stepCalls_succ hs k).mpr h, ?_⟩
        rw [after_stepCalls_succ hs]
        exact hfault

/-! ## Frames -/

/-- A frame whose steps all succeed. -/
theorem perform_frame_of_accepts {fps : Int} (hfps : 0 < fps)
    (h : m.Accepts (stepCalls (m.frameSteps fps))) :
    ∃ b, m.perform (.frame fps) = (m.after (stepCalls (m.frameSteps fps)), .ok (some b)) ∧
      (b = true ↔ m.Answers (stepCalls (m.frameSteps fps)) (some true)) ∧
      (m.after (stepCalls (m.frameSteps fps))).steps = m.steps + m.frameSteps fps := by
  obtain ⟨b, hrun, hb, hsteps⟩ := runSteps_of_accepts false h
  rw [perform, runFrame, if_neg (Int.not_le.mpr hfps), frame, m.stepsPerFrame_toNat hfps, hrun]
  refine ⟨b, rfl, ?_, hsteps⟩
  rw [hb]
  exact or_iff_right Bool.false_ne_true

/-- A frame that a fault cuts short. -/
theorem perform_frame_of_fault_in {fps : Int} (hfps : 0 < fps) {k : Nat} {f : Fault}
    (hk : k < m.frameSteps fps) (h : m.Accepts (stepCalls k))
    (hf : (m.after (stepCalls k)).step = (m', .error f)) :
    m.perform (.frame fps) = (m', .error (.fault f)) := by
  rw [perform, runFrame, if_neg (Int.not_le.mpr hfps), frame, m.stepsPerFrame_toNat hfps,
    runSteps_of_fault hk h hf]
  rfl

/-- A frame is refused if one of its steps is, and only then. -/
theorem frame_accepted_iff {fps : Int} (hfps : 0 < fps) :
    (∃ answer, (m.perform (.frame fps)).2 = .ok answer) ↔
      m.Accepts (stepCalls (m.frameSteps fps)) := by
  constructor
  · rintro ⟨answer, hanswer⟩
    refine (m.accepts_or_faults _).resolve_right ?_
    rintro ⟨k, hk, haccepts, m', f, hf⟩
    rw [perform_frame_of_fault_in hfps hk haccepts hf] at hanswer
    cases hanswer
  · intro h
    obtain ⟨b, hframe, -, -⟩ := perform_frame_of_accepts hfps h
    exact ⟨some b, by rw [hframe]⟩

theorem frameSteps_perform (m : Machine σ) (c : HostCall) (fps : Int) :
    (m.perform c).1.frameSteps fps = m.frameSteps fps := by
  rw [frameSteps, ((built_kept m.program m.timers.speed).perform c ⟨rfl, rfl⟩).2]
  rfl

/-- **Frames add up**, whatever their rates. -/
theorem frames_eq_steps {rates : List Int} (hrates : ∀ fps ∈ rates, 0 < fps) :
    (m.Accepts (rates.map .frame) ↔ m.Accepts (stepCalls (rates.map m.frameSteps).sum)) ∧
      (m.Accepts (rates.map .frame) →
        m.after (rates.map .frame) = m.after (stepCalls (rates.map m.frameSteps).sum)) := by
  induction rates generalizing m with
  | nil => exact ⟨Iff.rfl, fun _ => rfl⟩
  | cons fps rates ih =>
    have hfps := hrates fps List.mem_cons_self
    obtain ⟨hiff, hafter⟩ := @ih (m.perform (.frame fps)).1
      fun r hr => hrates r (List.mem_cons_of_mem fps hr)
    have hsame : (m.perform (.frame fps)).1.frameSteps = m.frameSteps :=
      funext (m.frameSteps_perform (.frame fps))
    rw [hsame] at hiff hafter
    rw [List.map_cons, List.map_cons, List.sum_cons, stepCalls_add, accepts_cons, accepts_append,
      frame_accepted_iff hfps, after_append]
    -- the frames behind this one start where its steps have left the machine
    have hfirst : m.Accepts (stepCalls (m.frameSteps fps)) →
        (m.perform (.frame fps)).1 = m.after (stepCalls (m.frameSteps fps)) := by
      intro h
      obtain ⟨b, hframe, -, -⟩ := perform_frame_of_accepts hfps h
      rw [hframe]
    refine ⟨and_congr_right fun h => ?_, fun ⟨h, hlater⟩ => ?_⟩
    · rw [hiff, hfirst h]
    · rw [after, hafter hlater, hfirst h]

/--
**A frame is so many steps.** A frame at a rate that there is not is refused and changes nothing, on
a stopped machine, too. Any other frame is a number of steps, one at least. If all of them succeed,
the frame leaves what they leave, has counted them all, and asks for a redraw if one of them does;
else it ends on the first fault, which it reports. Frames at any rates are so the steps of all
of them.
-/
theorem frame_is_steps (m : Machine σ) :
    (∀ fps : Int, fps ≤ 0 → m.perform (.frame fps) = (m, .error (.frameRate fps))) ∧
    (∀ fps : Int, 0 < fps →
      let n := max 1 (m.timers.speed.perSecond / fps).toNat
      (m.Accepts (stepCalls n) ∨
        ∃ k < n, m.Accepts (stepCalls k) ∧
          ∃ m' f, (m.after (stepCalls k)).perform .step = (m', .error (.fault f))) ∧
      (m.Accepts (stepCalls n) →
        ∃ redraw, m.perform (.frame fps) = (m.after (stepCalls n), .ok (some redraw)) ∧
          (redraw = true ↔ m.Answers (stepCalls n) (some true)) ∧
          (m.after (stepCalls n)).steps = m.steps + n) ∧
      ∀ k < n, m.Accepts (stepCalls k) →
        ∀ m' f, (m.after (stepCalls k)).perform .step = (m', .error (.fault f)) →
          m.perform (.frame fps) = (m', .error (.fault f))) ∧
    ∀ rates : List Int, (∀ fps ∈ rates, 0 < fps) →
      let n := (rates.map fun fps : Int => max 1 (m.timers.speed.perSecond / fps).toNat).sum
      (m.Accepts (rates.map .frame) ↔ m.Accepts (stepCalls n)) ∧
      (m.Accepts (rates.map .frame) → m.after (rates.map .frame) = m.after (stepCalls n)) := by
  refine ⟨fun fps hfps => ?_, fun fps hfps => ?_, fun rates hrates => frames_eq_steps hrates⟩
  · rw [perform, runFrame, if_pos hfps]
    rfl
  · intro n
    refine ⟨?_, perform_frame_of_accepts hfps, fun k hk h m' f hf => ?_⟩
    · refine (m.accepts_or_faults n).imp_right ?_
      rintro ⟨k, hk, h, m', f, hf⟩
      exact ⟨k, hk, h, m', f, perform_step_of_error hf⟩
    · exact perform_frame_of_fault_in hfps hk h (step_of_perform_error hf)

/-- Frames of one and of two steps draw a glyph; a frame of seven steps gets no further than the
word behind it. -/
theorem frame_is_steps_until_fault :
    ∃ m : Machine RepeatingBytes,
      build (.bytes [0x60, 0x01, 0xA0, 0x50, 0xD0, 0x15, 0x00, 0x00]) (.int 700) (.ofList []) =
        .ok m ∧
      let f : Fault := ⟨.unimplemented, some 0x0000, 0x206⟩
      ((∀ fps ∈ [1000, 350], (0 : Int) < fps) ∧ m.Accepts [.frame 1000, .frame 350] ∧
        m.after [.frame 1000, .frame 350] = m.after (stepCalls 3)) ∧
      ((0 : Int) < 100 ∧ m.Accepts (stepCalls 3) ∧
        ((m.after (stepCalls 3)).perform .step).2 = .error (.fault f)) ∧
      (m.perform (.frame 100)).2 = .error (.fault f) ∧
      (m.perform (.frame 100)).1.steps = 3 := by
  obtain ⟨m, hm⟩ : ∃ m : Machine RepeatingBytes,
      m = holding ⟨[0x60, 0x01, 0xA0, 0x50, 0xD0, 0x15, 0x00, 0x00], by decide⟩ := ⟨_, rfl⟩
  obtain ⟨h₀, h₁, h₂, h₃, hsteps, hspeed⟩ :
      m.step.2 = .ok false ∧ m.step.1.step.2 = .ok false ∧ m.step.1.step.1.step.2 = .ok true ∧
        (m.step.1.step.1.step.1.perform .step).2 =
          .error (.fault ⟨.unimplemented, some 0x0000, 0x206⟩) ∧
        (m.step.1.step.1.step.1.perform .step).1.steps = 3 ∧
        m.timers.speed.perSecond = 700 := by
    rw [hm]
    decide +kernel
  have hbuild := build_new ⟨[0x60, 0x01, 0xA0, 0x50, 0xD0, 0x15, 0x00, 0x00], by decide⟩ .default
    (RepeatingBytes.ofList [])
  refine ⟨m, hm ▸ hbuild, ?_⟩
  intro f
  have hs₀ : m.step = (m.step.1, .ok false) := Prod.ext rfl h₀
  have hs₁ : m.step.1.step = (m.step.1.step.1, .ok false) := Prod.ext rfl h₁
  have hs₂ : m.step.1.step.1.step = (m.step.1.step.1.step.1, .ok true) := Prod.ext rfl h₂
  have haccepts : m.Accepts (stepCalls 3) := by
    rw [accepts_stepCalls_succ hs₀, accepts_stepCalls_succ hs₁, accepts_stepCalls_succ hs₂]
    exact accepts_nil _
  have hafter : m.after (stepCalls 3) = m.step.1.step.1.step.1 := by
    rw [after_stepCalls_succ hs₀, after_stepCalls_succ hs₁, after_stepCalls_succ hs₂]
    rfl
  rw [← hafter] at h₃ hsteps
  obtain ⟨-, hframe, hframes⟩ := frame_is_steps m
  rw [hspeed] at hframe hframes
  have hrates : ∀ fps ∈ [1000, 350], (0 : Int) < fps := by decide
  obtain ⟨hiff, hsame⟩ := hframes [1000, 350] hrates
  obtain ⟨-, -, hfault⟩ := hframe 100 (by decide)
  have hstop := hfault 3 (by decide) haccepts _ f (Prod.ext rfl h₃)
  have htwo : m.Accepts [.frame 1000, .frame 350] := hiff.mpr haccepts
  rw [hstop]
  exact ⟨⟨hrates, htwo, hsame htwo⟩, ⟨by decide, haccepts, h₃⟩, rfl, hsteps⟩

end Machine

end ChipEight
