import ChipEight.Proofs.KeyRelease

/-!
# A machine that has stopped

A fault is reported by the call that runs into it and by every later call that would let the machine
run. None of these does anything else: nothing ticks, nothing is drawn from the random source, and a
released key stays in its slot. What a host can still reach is what lies open to it, memory and the
keypad, and these end up as its own calls have left them (`stores`, `strikes`), whatever comes
between.
-/

namespace ChipEight

namespace Machine

variable {σ : Type}

/-- A call without an answer does not report a fault, unless its error is one. -/
theorem settle_ne_fault {ε : Type} {m : Machine σ} {wrap : ε → HostError} {f : Fault}
    (hwrap : ∀ e, wrap e ≠ .fault f) (access : Except ε (Machine σ)) :
    (m.settle wrap access).2 ≠ .error (.fault f) := by
  intro h
  cases access with
  | error e => exact hwrap e (Except.error.inj h)
  | ok m' => cases h

variable [RandomSource σ] {m : Machine σ} {f : Fault}

/-! ## Stopping -/

theorem fault_of_runSteps_error {n : Nat} {redraw : Bool}
    (h : (m.runSteps n redraw).2 = .error f) : (m.runSteps n redraw).1.fault = some f := by
  induction n generalizing m redraw with
  | zero => cases h
  | succ n ih =>
    have hstep : ∀ g, m.step.2 = .error g → m.step.1.fault = some g :=
      fun g => fault_of_step_error
    rw [runSteps] at h ⊢
    rcases hs : m.step with ⟨m', now | now⟩ <;> rw [hs] at h hstep
    · -- the run ends here, with the fault of this step
      cases h
      exact hstep _ rfl
    · exact ih h

/-- A call that reports a fault leaves the machine stopped on it. -/
theorem fault_of_perform_error {c : HostCall} (h : (m.perform c).2 = .error (.fault f)) :
    (m.perform c).1.fault = some f := by
  cases c with
  | step =>
    have hstep : ∀ g, m.step.2 = .error g → m.step.1.fault = some g :=
      fun g => fault_of_step_error
    rw [perform] at h ⊢
    rcases hs : m.step with ⟨m', now | now⟩ <;> rw [hs] at h hstep <;> cases h
    exact hstep f rfl
  | frame fps =>
    rw [perform, runFrame] at h ⊢
    by_cases hfps : fps ≤ 0
    · rw [if_pos hfps] at h
      cases h
    · rw [if_neg hfps] at h ⊢
      have hrun : ∀ g, (m.frame fps.toNat).2 = .error g → (m.frame fps.toNat).1.fault = some g :=
        fun g => fault_of_runSteps_error
      dsimp only at h ⊢
      rcases hs : m.frame fps.toNat with ⟨m', now | now⟩ <;> rw [hs] at h hrun <;> cases h
      exact hrun f rfl
  | reset => cases h
  | press key | release key => exact absurd h (settle_ne_fault (fun _ => HostError.noConfusion) _)
  | load addr data | poke addr value =>
    exact absurd h (settle_ne_fault (fun _ => HostError.noConfusion) _)

/-! ## Staying stopped -/

theorem perform_step_of_fault (hm : m.fault = some f) :
    m.perform .step = (m, .error (.fault f)) := by
  rw [perform, step_of_fault hm]
  rfl

/-- However long a frame is, it ends with its first step. -/
theorem perform_frame_of_fault (hm : m.fault = some f) {fps : Int} (hfps : 0 < fps) :
    m.perform (.frame fps) = (m, .error (.fault f)) := by
  obtain ⟨n, hn⟩ := stepsPerFrame_eq_succ m.timers.speed fps.toNat
  rw [perform, runFrame, if_neg (by omega), frame, hn, runSteps, step_of_fault hm]
  rfl

/-- A call short of a reset reaches memory and the keypad of a stopped machine, and no more. -/
theorem perform_of_fault (hm : m.fault = some f) {c : HostCall} (hc : c ≠ .reset) :
    (m.perform c).1 = { m with memory := c.stores m.memory, keypad := c.strikes m.keypad } := by
  cases hruns : c.runs with
  | true =>
    cases c with
    | step => rw [perform_step_of_fault hm]; rfl
    | frame fps =>
      by_cases hfps : fps ≤ 0
      · rw [perform, runFrame, if_pos hfps]
        rfl
      · rw [perform_frame_of_fault hm (by omega)]
        rfl
    | _ => cases hruns
  | false => exact m.perform_of_not_runs hruns hc

theorem after_of_fault (hm : m.fault = some f) {calls : List HostCall} (hreset : .reset ∉ calls) :
    m.after calls = { m with
      memory := calls.foldl HostCall.stores m.memory
      keypad := calls.foldl HostCall.strikes m.keypad } := by
  induction calls generalizing m with
  | nil => rfl
  | cons c cs ih =>
    have hc : c ≠ .reset := fun h => hreset (h ▸ List.mem_cons_self)
    have hcs : .reset ∉ cs := fun h => hreset (List.mem_cons_of_mem c h)
    rw [after, perform_of_fault hm hc]
    exact ih hm hcs

/--
**A fault is final.** The machine that a call has left with a fault keeps the fault through all
further calls but a reset. Each step and each frame, however long, reports this fault and changes
nothing at all, so that memory and the keypad are what the host itself has made of them, and the
rest is as the fault has left it.
-/
theorem fault_is_final {c : HostCall} (hfault : (m.perform c).2 = .error (.fault f)) :
    let n := (m.perform c).1
    n.fault = some f ∧
    ∀ calls : List HostCall, .reset ∉ calls →
      let h := n.after calls
      h = { n with
        memory := calls.foldl HostCall.stores n.memory
        keypad := calls.foldl HostCall.strikes n.keypad } ∧
      h.perform .step = (h, .error (.fault f)) ∧
      (∀ fps : Int, 0 < fps → h.perform (.frame fps) = (h, .error (.fault f))) ∧
      ∀ d : HostCall, (h.perform d).1.fault = if d = .reset then none else some f := by
  intro n
  have hn : n.fault = some f := fault_of_perform_error hfault
  refine ⟨hn, fun calls hreset => ?_⟩
  intro h
  have hafter := after_of_fault hn hreset
  have hh : h.fault = some f := (congrArg fault hafter).trans hn
  refine ⟨hafter, perform_step_of_fault hh, fun _ => perform_frame_of_fault hh, fun d => ?_⟩
  by_cases hd : d = .reset
  · rw [if_pos hd, hd]
    rfl
  · rw [if_neg hd, perform_of_fault hh hd]
    exact hh

/-- The key released after the fault is still in its slot after a frame and a step, and the byte that
the host has written between them is in memory. -/
theorem fault_is_final_pending_release :
    let m := holding ⟨[0x00, 0x00], by decide⟩
    let f : Fault := ⟨.unimplemented, some 0x0000, 0x200⟩
    let calls := [HostCall.release 5, .frame 60, .press 16, .poke 0x200 0x12, .step]
    let n := (m.perform (.frame 60)).1
    let h := n.after calls
    ((m.perform (.frame 60)).2 = .error (.fault f) ∧ .reset ∉ calls) ∧
      h.perform .step = (h, .error (.fault f)) ∧
      h.keypad.released = some 5 ∧ h.memory.byte 0x200 = 0x12 ∧ h.steps = 0 := by
  intro m f calls n h
  obtain ⟨hfault, hreset, hkey, hbyte, hsteps⟩ :
      (m.perform (.frame 60)).2 = .error (.fault f) ∧ .reset ∉ calls ∧
        (calls.foldl HostCall.strikes n.keypad).released = some 5 ∧
        (calls.foldl HostCall.stores n.memory).byte 0x200 = 0x12 ∧ n.steps = 0 := by
    decide +kernel
  obtain ⟨-, hfinal⟩ := fault_is_final hfault
  obtain ⟨hafter, hstep, -, -⟩ := hfinal calls hreset
  refine ⟨⟨hfault, hreset⟩, hstep, ?_, ?_, ?_⟩
  · exact (congrArg (·.keypad.released) hafter).trans hkey
  · exact (congrArg (·.memory.byte 0x200) hafter).trans hbyte
  · exact (congrArg steps hafter).trans hsteps

end Machine

end ChipEight
