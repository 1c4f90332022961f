import ChipEight.Proofs.Outcome
import ChipEight.Proofs.Trace
import Mathlib.Data.List.Induction

/-!
# Waiting for a key

A released key is seen by the next step and by no other. What the slot holds is therefore a matter
of the calls since the last step or reset alone (`lastRelease`), as long as the machine runs: a
machine that has stopped makes no steps, and a fault is only ever ended by a reset, so a machine
that runs now has made every step that it was told to since. Waiting is the other half. An
instruction that waits leaves all but the clock, and so it is still the word at `pc` for the next
step, which looks into the slot again.
-/

namespace ChipEight

/-! ## What a host has released -/

/-- Neither a step nor a reset. -/
def HostCall.isQuiet : HostCall → Bool
  | .step | .reset => false
  | .frame fps => fps ≤ 0
  | _ => true

/-- The key that a call releases, if there is such a key. -/
def HostCall.releasedKey? : HostCall → Option (Fin 16)
  | .release key => (Keypad.key key).toOption
  | _ => none

theorem HostCall.strikes_released (c : HostCall) (p : Keypad) :
    (c.strikes p).released = c.releasedKey?.or p.released := by
  cases c with
  | press key =>
    show ((p.press key).toOption.getD p).released = p.released
    unfold Keypad.press
    cases Keypad.key key <;> rfl
  | release key =>
    show ((p.release key).toOption.getD p).released = (Keypad.key key).toOption.or p.released
    unfold Keypad.release
    cases Keypad.key key <;> rfl
  | _ => rfl

/-- The key released last since the last step or reset. -/
def lastRelease (calls : List HostCall) : Option (Fin 16) :=
  (calls.reverse.takeWhile HostCall.isQuiet).findSome? HostCall.releasedKey?

theorem lastRelease_concat (calls : List HostCall) (c : HostCall) :
    lastRelease (calls ++ [c]) =
      if c.isQuiet then c.releasedKey?.or (lastRelease calls) else none :=
  findSome?_since_concat HostCall.isQuiet HostCall.releasedKey? calls c

/-- What was released before a step does not matter after it. -/
theorem lastRelease_step (before later : List HostCall) :
    lastRelease (before ++ .step :: later) = lastRelease later := by
  induction later using List.reverseRecOn with
  | nil => exact lastRelease_concat before .step
  | append_singleton later c ih =>
    rw [← List.cons_append, ← List.append_assoc, lastRelease_concat, lastRelease_concat, ih]

namespace Machine

variable {σ : Type} [RandomSource σ] {m : Machine σ}

/-! ## The slot of the key released last -/

theorem step_keypad (hm : m.fault = none) : m.step.1.keypad = m.keypad.consume := by
  rcases step_outcome hm with ⟨f, hs⟩ | ⟨i, m', -, ho, hs⟩
  · rw [hs]
  · rw [hs]
    cases ho <;> rfl

theorem running_of_perform {c : HostCall} (h : (m.perform c).1.fault = none) (hc : c ≠ .reset) :
    m.fault = none := by
  cases hm : m.fault with
  | none => rfl
  | some f =>
    have hf : (m.perform c).1.fault = some f :=
      @Traced.perform _ _ _ (fault_traced f) c hc [] m hm
    rw [h] at hf
    cases hf

/-- A step leaves the slot empty, or it was not made. -/
theorem step_released (h : m.fault = none ∨ m.keypad.released = none) :
    m.step.1.keypad.released = none := by
  cases hm : m.fault with
  | some f =>
    rw [step_of_fault hm]
    rw [hm] at h
    exact h.resolve_left nofun
  | none =>
    rw [step_keypad hm]
    rfl

/-- Steps of a running machine, one at least, leave the slot empty. -/
theorem runSteps_released (hm : m.fault = none) (n : Nat) (redraw : Bool) :
    (m.runSteps (n + 1) redraw).1.keypad.released = none := by
  have hs := step_released (.inl hm)
  rw [runSteps]
  rcases hstep : m.step with ⟨m', now | now⟩ <;> rw [hstep] at hs
  · exact hs
  · exact runSteps_kept (P := fun n => n.keypad.released = none)
      (fun _ hn => step_released (.inr hn)) n _ hs

/-- A frame is never without a step. -/
theorem stepsPerFrame_eq_succ (speed : Speed) (fps : Nat) : ∃ n, speed.stepsPerFrame fps = n + 1 :=
  Nat.exists_eq_add_of_le' (Nat.le_max_left 1 _)

/-- A call that makes the machine step empties the slot, and any other adds what it releases. -/
theorem perform_released (m : Machine σ) {c : HostCall} (hc : c ≠ .reset) :
    (m.perform c).1.keypad.released =
      if m.steppedBy c = [] then c.releasedKey?.or m.keypad.released else none := by
  cases c with
  | step =>
    show m.step.1.keypad.released = if m.steppedIn 1 = [] then m.keypad.released else none
    cases hm : m.fault with
    | some f => rw [step_of_fault hm, if_pos (steppedIn_of_fault hm 1)]
    | none => rw [step_released (.inl hm), steppedIn, hm, if_neg (List.cons_ne_nil _ _)]
  | frame fps =>
    show (m.runFrame fps).1.keypad.released =
      if m.steppedBy (.frame fps) = [] then m.keypad.released else none
    rw [runFrame, steppedBy]
    by_cases hfps : fps ≤ 0
    · rw [if_pos hfps, if_pos hfps, if_pos rfl]
    · obtain ⟨n, hn⟩ := stepsPerFrame_eq_succ m.timers.speed fps.toNat
      rw [if_neg hfps, if_neg hfps]
      dsimp only
      rw [frame, hn]
      cases hm : m.fault with
      | some f => rw [runSteps, step_of_fault hm, if_pos (steppedIn_of_fault hm _)]
      | none => rw [runSteps_released hm, steppedIn, hm, if_neg (List.cons_ne_nil _ _)]
  | reset => exact absurd rfl hc
  | _ =>
    rw [m.perform_of_not_runs rfl hc]
    exact HostCall.strikes_released _ m.keypad

/-- A running machine makes every step that it is told to. -/
theorem steppedBy_eq_nil_iff (hm : m.fault = none) {c : HostCall} (hc : c ≠ .reset) :
    m.steppedBy c = [] ↔ c.isQuiet = true := by
  have hstep : ∀ n, m.steppedIn (n + 1) ≠ [] := by
    intro n
    rw [steppedIn, hm]
    exact List.cons_ne_nil _ _
  cases c with
  | step => exact iff_of_false (hstep 0) Bool.false_ne_true
  | frame fps =>
    obtain ⟨n, hn⟩ := stepsPerFrame_eq_succ m.timers.speed fps.toNat
    show _ ↔ decide (fps ≤ 0) = true
    rw [steppedBy, hn, decide_eq_true_iff]
    by_cases hfps : fps ≤ 0
    · rw [if_pos hfps]
      exact iff_of_true rfl hfps
    · rw [if_neg hfps]
      exact iff_of_false (hstep n) hfps
  | reset => exact absurd rfl hc
  | _ => exact iff_of_true rfl rfl

/-- **The slot holds the last release since the last step or reset.** -/
theorem released_after (program : Program) (speed : Speed) (source : σ) {calls : List HostCall}
    (h : ((new program speed source).after calls).fault = none) :
    ((new program speed source).after calls).keypad.released = lastRelease calls := by
  induction calls using List.reverseRecOn with
  | nil => rfl
  | append_singleton calls c ih =>
    rw [after_append] at h ⊢
    rw [lastRelease_concat]
    by_cases hreset : c = .reset
    · rw [hreset]
      rfl
    · have hm := running_of_perform h hreset
      refine (perform_released _ hreset).trans ?_
      rw [ih hm]
      exact if_congr (steppedBy_eq_nil_iff hm hreset) rfl rfl

/-- Once it has stopped, the slot holds the last release since then. -/
theorem released_of_fault {f : Fault} (hm : m.fault = some f) (hr : m.keypad.released = none)
    {calls : List HostCall} (hreset : .reset ∉ calls) :
    (m.after calls).keypad.released = calls.reverse.findSome? HostCall.releasedKey? := by
  induction calls using List.reverseRecOn with
  | nil => exact hr
  | append_singleton calls c ih =>
    have hc : c ≠ .reset := fun hc => hreset (List.mem_append_right _ (hc ▸ List.mem_cons_self))
    have hcalls : .reset ∉ calls := fun h => hreset (List.mem_append_left _ h)
    have hstopped : (m.after calls).fault = some f :=
      @Traced.after _ _ _ (fault_traced f) calls hcalls [] m hm
    rw [after_append]
    refine (perform_released _ hc).trans ?_
    rw [if_pos (steppedBy_of_fault hstopped c), ih hcalls, List.reverse_append,
      List.reverse_singleton, List.singleton_append, List.findSome?_cons]
    cases c.releasedKey? <;> rfl

/-! ## Waiting -/

/-- Without a released key a step that waits leaves all but the clock. -/
theorem step_waits (hm : m.fault = none) {x : Register} (hw : m.AtWord (0xF00A + 256 * x))
    (hr : m.keypad.released = none) :
    m.step = ({ m with timers := m.timers.tick.1, steps := m.steps + 1 }, .ok false) := by
  have hi : m.AtWord (Instruction.awaitRelease x).encode := hw
  have he : m.tick.execute (.awaitRelease x) = .ok m.tick := by
    have hr' : m.tick.keypad.released = none := hr
    rw [execute, hr']
    rfl
  have hkeypad : m.keypad.consume = m.keypad := by
    rw [Keypad.consume, ← hr]
  rw [step_of_execute hm hi he]
  show ({ m with keypad := m.keypad.consume, timers := _, steps := _ }, _) = _
  rw [hkeypad]
  rfl

/-- A step that waits takes the released key. -/
theorem step_takes (hm : m.fault = none) {x : Register} (hw : m.AtWord (0xF00A + 256 * x))
    {k : Fin 16} (hr : m.keypad.released = some k) :
    m.step.2 = .ok false ∧ m.step.1.pc = m.pc + 2 ∧
      ∀ y, m.step.1.register y = if y = x then UInt8.ofNat k else m.register y := by
  have hi : m.AtWord (Instruction.awaitRelease x).encode := hw
  have he : m.tick.execute (.awaitRelease x) = .ok (m.tick.setRegister x (UInt8.ofNat k)) := by
    have hr' : m.tick.keypad.released = some k := hr
    rw [execute, hr']
    rfl
  rw [step_of_execute hm hi he]
  exact ⟨rfl, rfl, m.tick.register_setRegister x _⟩

/-- `n` is `m` but for the clock and the keys. -/
def Waited (m n : Machine σ) : Prop :=
  ∃ timers keypad steps, n = { m with timers := timers, keypad := keypad, steps := steps }

/-- **Waiting goes on**, with any presses and releases, as long as every step finds the slot
empty. -/
theorem waited_after (hm : m.fault = none) {x : Register} (hw : m.AtWord (0xF00A + 256 * x))
    {calls : List HostCall}
    (hcalls : ∀ c ∈ calls, c = .step ∨ ∃ key, c = .press key ∨ c = .release key)
    (hempty : ∀ cs later, calls = cs ++ .step :: later →
      (m.after cs).fault = none → (m.after cs).keypad.released = none) :
    Waited m (m.after calls) := by
  induction calls using List.reverseRecOn with
  | nil => exact ⟨m.timers, m.keypad, m.steps, rfl⟩
  | append_singleton calls c ih =>
    have hwaited : Waited m (m.after calls) := by
      refine ih (fun c hc => hcalls c (List.mem_append_left _ hc)) fun cs later hcs => ?_
      refine hempty cs (later ++ [c]) ?_
      rw [hcs, List.append_assoc, List.cons_append]
    have hslot := hempty calls []
    rw [after_append]
    generalize m.after calls = n at hwaited hslot
    obtain ⟨timers, keypad, steps, rfl⟩ := hwaited
    rcases hcalls c (List.mem_append_right _ List.mem_cons_self) with rfl | hkey
    · have hstep := step_waits (m := { m with timers := timers, keypad := keypad, steps := steps })
        hm hw (hslot rfl hm)
      show Waited m (Machine.step _).1
      rw [hstep]
      exact ⟨_, _, _, rfl⟩
    · have hmoves : c.movesKey = true := by
        obtain ⟨key, rfl | rfl⟩ := hkey <;> rfl
      obtain ⟨p, hp⟩ := perform_of_movesKey
        { m with timers := timers, keypad := keypad, steps := steps } hmoves
      rw [after, hp]
      exact ⟨_, p, _, rfl⟩

/--
**A key release is seen by one step.** Before every step of a running machine the slot holds the
key released last since the previous step, and after it nothing. (A machine that has stopped makes
no more steps, and from then on the slot keeps the last release.) An instruction that waits for a
key therefore leaves all but the clock on every step that no release has preceded, whatever is
pressed meanwhile. On the first step that a release has preceded it takes the key of the last one,
and it never takes a key that an earlier step has found.
-/
theorem await_release (program : Program) (speed : Speed) (source : σ) :
    ∃ m₀ : Machine σ,
      build (.bytes program.bytes) (.int speed.perSecond) source = .ok m₀ ∧
      ∀ before : List HostCall, (m₀.after before).fault = none →
        let m := m₀.after before
        (m.keypad.released = lastRelease before ∧ m.step.1.keypad.released = none ∧
          ∀ f, m.step.2 = .error f → ∀ calls : List HostCall, .reset ∉ calls →
            (m.step.1.after calls).keypad.released =
              calls.reverse.findSome? HostCall.releasedKey?) ∧
        (∀ x : Register, m.AtWord (0xF00A + 256 * x) →
          ∀ calls : List HostCall,
          (∀ c ∈ calls, c = .step ∨ ∃ key, c = .press key ∨ c = .release key) →
          (∀ cs later, calls = cs ++ .step :: later → lastRelease (before ++ cs) = none) →
          let n := m.after calls
          Waited m n ∧
          (lastRelease (before ++ calls) = none →
            n.step = ({ n with timers := n.timers.tick.1, steps := n.steps + 1 }, .ok false)) ∧
          ∀ k, lastRelease (before ++ calls) = some k →
            n.step.2 = .ok false ∧ n.step.1.pc = m.pc + 2 ∧
            ∀ y, n.step.1.register y = if y = x then UInt8.ofNat k else m.register y) ∧
        ∀ later : List HostCall,
          let n := m.step.1.after later
          n.fault = none →
          n.keypad.released = lastRelease later ∧
          ∀ x : Register, n.AtWord (0xF00A + 256 * x) → lastRelease later = none →
            n.step = ({ n with timers := n.timers.tick.1, steps := n.steps + 1 }, .ok false) := by
  refine ⟨_, build_new program speed source, fun before hrun => ?_⟩
  intro m
  -- what the slot holds, after any more calls
  have hslot : ∀ cs, (m.after cs).fault = none →
      (m.after cs).keypad.released = lastRelease (before ++ cs) := by
    intro cs hcs
    have happend : m.after cs = (new program speed source).after (before ++ cs) :=
      (after_append _ before cs).symm
    rw [happend] at hcs ⊢
    exact released_after program speed source hcs
  have hempty : m.step.1.keypad.released = none := step_released (.inl hrun)
  refine ⟨⟨released_after program speed source hrun, hempty, fun f hf calls => ?_⟩, ?_, ?_⟩
  · exact released_of_fault (fault_of_step_error hf) hempty
  · intro x hw calls hcalls hnone n
    have hwaited : Waited m n := by
      refine waited_after hrun hw hcalls fun cs later hcs hfault => ?_
      rw [hslot cs hfault]
      exact hnone cs later hcs
    have hn : n.fault = none ∧ n.AtWord (0xF00A + 256 * x) ∧ n.pc = m.pc ∧
        ∀ y, n.register y = m.register y := by
      obtain ⟨timers, keypad, steps, hn⟩ := hwaited
      rw [hn]
      exact ⟨hrun, hw, rfl, fun _ => rfl⟩
    obtain ⟨hfault, hword, hpc, hregisters⟩ := hn
    have hreleased := hslot calls hfault
    refine ⟨hwaited, fun hlast => ?_, fun k hlast => ?_⟩
    · exact step_waits hfault hword (hreleased.trans hlast)
    · obtain ⟨hok, hnext, htaken⟩ := step_takes hfault hword (hreleased.trans hlast)
      rw [← hpc]
      refine ⟨hok, hnext, fun y => ?_⟩
      rw [htaken, hregisters]
  · intro later n hfault
    have hreleased : n.keypad.released = lastRelease (before ++ .step :: later) :=
      hslot (.step :: later) hfault
    rw [lastRelease_step] at hreleased
    exact ⟨hreleased, fun x hword hlast => step_waits hfault hword (hreleased.trans hlast)⟩

/-- The release of key 7 is spent on the first instruction, and of the two releases that the second
one waits for it takes the later. -/
theorem await_release_overwritten :
    ∃ m₀ : Machine RepeatingBytes,
      build (.bytes [0x60, 0x05, 0xF3, 0x0A]) (.int 700) (.ofList []) = .ok m₀ ∧
      let m := m₀.after [.release 7, .step]
      let calls := [HostCall.step, .press 2, .release 9, .release 4]
      (m.fault = none ∧ m.AtWord (0xF00A + 256 * (0x3 : Register))) ∧
      (∀ c ∈ calls, c = .step ∨ ∃ key, c = .press key ∨ c = .release key) ∧
      (∀ cs later, calls = cs ++ .step :: later →
        lastRelease ([.release 7, .step] ++ cs) = none) ∧
      lastRelease ([.release 7, .step] ++ calls) = some 4 ∧
      m.step.2 = .ok false ∧ m.step.1.pc = 0x202 ∧
      (m.after calls).step.1.pc = 0x204 ∧
      (m.after calls).step.1.register 0x3 = 4 := by
  obtain ⟨m₀, hbuild, h⟩ := await_release ⟨[0x60, 0x05, 0xF3, 0x0A], by decide⟩ .default
    (RepeatingBytes.ofList [])
  have hm₀ : m₀ = holding ⟨[0x60, 0x05, 0xF3, 0x0A], by decide⟩ :=
    Except.ok.inj (hbuild.symm.trans rfl)
  obtain ⟨hrun₀, hrun, hword, hpc⟩ :
      (m₀.after [.release 7]).fault = none ∧ (m₀.after [.release 7, .step]).fault = none ∧
        ((m₀.after [.release 7, .step]).pc ≤ 0xFFE ∧
          (m₀.after [.release 7, .step]).word = 0xF00A + 256 * (0x3 : Register)) ∧
        (m₀.after [.release 7, .step]).pc = 0x202 := by
    rw [hm₀]
    decide +kernel
  refine ⟨m₀, hbuild, ?_⟩
  intro m calls
  have hcalls : ∀ c ∈ calls, c = .step ∨ ∃ key, c = .press key ∨ c = .release key := by
    simp [calls]
  have hnone : ∀ cs later, calls = cs ++ .step :: later →
      lastRelease ([.release 7, .step] ++ cs) = none := by
    intro cs later hcs
    cases cs with
    | nil => decide
    | cons c cs =>
      have hstep : HostCall.step ∈ [HostCall.press 2, .release 9, .release 4] := by
        rw [(List.cons.inj hcs).2]
        exact List.mem_append_right _ List.mem_cons_self
      exact absurd hstep (by decide)
  have hlast : lastRelease ([.release 7, .step] ++ calls) = some 4 := by decide
  obtain ⟨-, -, hspent⟩ := h [.release 7] hrun₀
  obtain ⟨-, hwaits⟩ := hspent [] hrun
  have hwait := hwaits 0x3 hword (by decide)
  obtain ⟨-, hawait, -⟩ := h [.release 7, .step] hrun
  obtain ⟨-, -, htakes⟩ := hawait 0x3 hword calls hcalls hnone
  obtain ⟨-, hnext, hregister⟩ := htakes 4 hlast
  refine ⟨⟨hrun, hword⟩, hcalls, hnone, hlast, ?_, ?_, ?_, ?_⟩
  · exact congrArg Prod.snd hwait
  · exact (congrArg (fun r => r.1.pc) hwait).trans hpc
  · rw [hnext, hpc]
  · rw [hregister, if_pos rfl]
    rfl

end Machine

end ChipEight
