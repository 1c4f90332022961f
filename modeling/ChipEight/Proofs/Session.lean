import ChipEight.Window
import Mathlib.Data.List.Induction

/-!
# Tick after tick

A window in its loop goes from one frame to the next (`next`), and what may become of it there is
said once (`Ticked`): the end is asked for, it stays paused, it runs a frame of its machine, or the
machine faults. The windows of a session are these, one after the other, up to the first that does
not run any more (`loop_trace`).

So what is to be said of a window and of all that the session has been up to it (the frames that it
has taken in, the windows that it has been) is carried through every session by what a tick does to
it while the window runs (`kept`).
-/

namespace ChipEight

/-- An event that asks for the end. -/
def Event.asksQuit : Event → Bool
  | .quit => true
  | .down key _ => key == Keyboard.escapeKey
  | _ => false

/-- An event that asks for a pause, or for the end of one. -/
def Event.asksPause : Event → Bool
  | .down key _ => key == Keyboard.pauseKey
  | _ => false

/-- What has been asked for stays asked for. -/
theorem Keyboard.flags_handle (k : Keyboard) (e : Event) :
    (k.handle e).1.quit = (k.quit || e.asksQuit) ∧
      (k.handle e).1.pause = (k.pause || e.asksPause) := by
  cases e with
  | quit | focusLost order | focusGained =>
    simp [handle, releaseAll, Event.asksQuit, Event.asksPause]
  | up key scancode =>
    rw [handle]
    cases bound scancode <;> simp [Event.asksQuit, Event.asksPause]
  | down key scancode =>
    rw [handle]
    by_cases hescape : key = escapeKey
    · subst hescape
      simp [Event.asksQuit, Event.asksPause, show escapeKey ≠ pauseKey by decide]
    · by_cases hpause : key = pauseKey
      · subst hpause
        simp [Event.asksQuit, Event.asksPause, show pauseKey ≠ escapeKey by decide]
      · -- a key of the keypad asks for nothing
        have hasks : (Event.down key scancode).asksQuit = false ∧
            (Event.down key scancode).asksPause = false := by
          simp [Event.asksQuit, Event.asksPause, hescape, hpause]
        rw [if_neg hescape, if_neg hpause, hasks.1, hasks.2, Bool.or_false, Bool.or_false]
        split
        · exact ⟨rfl, rfl⟩
        · split <;> exact ⟨rfl, rfl⟩

/-- What a keyboard says reaches the keypad, and no more. -/
theorem Machine.obeyAll_eq {σ : Type} (m : Machine σ) (calls : List KeyCall) :
    m.obeyAll calls = { m with keypad := (m.obeyAll calls).keypad } := by
  induction calls generalizing m with
  | nil => rfl
  | cons c calls ih =>
    have hrest := ih (m.obey c)
    refine hrest.trans ?_
    cases c <;> rfl

namespace Window

variable {σ : Type} {w v : Window σ} {dt : Float}

/-! ## A new window -/

theorem eq_new_of_create {m : Machine σ} {scale : Option Int} {title : Option String}
    {mixer : Mixer} (h : create m scale title mixer = .ok w) :
    ∃ (scale : Int) (buzzer : Buzzer), w = new m scale title buzzer := by
  unfold create at h
  cases scale with
  | none => cases h
  | some scale =>
    dsimp only at h
    split at h
    · cases h
    · cases hbuzzer : Buzzer.new mixer with
      | error e =>
        rw [hbuzzer] at h
        cases h
      | ok made =>
        rw [hbuzzer] at h
        cases h
        exact ⟨scale, made.1, rfl⟩

/-! ## The parts of a tick -/

theorem adjustAll_eq (w : Window σ) (adjustments : List Adjustment) :
    w.adjustAll adjustments = { w with
      size := (w.adjustAll adjustments).size
      empty := (w.adjustAll adjustments).empty
      paused := (w.adjustAll adjustments).paused } := by
  induction adjustments generalizing w with
  | nil => rfl
  | cons a adjustments ih =>
    have hrest := ih (w.adjust a)
    cases a <;> exact hrest

/-- **Events reach the keyboard and the keypad**, and no more. -/
theorem poll_eq (w : Window σ) (events : List Event) :
    w.poll events = { w with
      keyboard := (w.poll events).keyboard
      machine := { w.machine with keypad := (w.poll events).machine.keypad } } := by
  induction events generalizing w with
  | nil => rfl
  | cons e events ih =>
    have hrest := ih (w.handle e)
    have hfirst : (w.handle e).machine = { w.machine with keypad := (w.handle e).machine.keypad } :=
      w.machine.obeyAll_eq (w.keyboard.handle e).2
    rw [hfirst] at hrest
    exact hrest

theorem flags_poll (w : Window σ) (events : List Event) :
    (w.poll events).keyboard.quit = (w.keyboard.quit || events.any Event.asksQuit) ∧
      (w.poll events).keyboard.pause = (w.keyboard.pause || events.any Event.asksPause) := by
  induction events generalizing w with
  | nil => exact ⟨(Bool.or_false _).symm, (Bool.or_false _).symm⟩
  | cons e events ih =>
    obtain ⟨hquit, hpause⟩ := ih (w.handle e)
    obtain ⟨hquit', hpause'⟩ : (w.handle e).keyboard.quit = (w.keyboard.quit || e.asksQuit) ∧
        (w.handle e).keyboard.pause = (w.keyboard.pause || e.asksPause) :=
      w.keyboard.flags_handle e
    rw [List.any_cons, List.any_cons, ← Bool.or_assoc, ← Bool.or_assoc, ← hquit', ← hpause']
    exact ⟨hquit, hpause⟩

/-- The window `v` that has taken in the frame `f`, as far as its events go. -/
structure Polled (w : Window σ) (f : Frame) (v : Window σ) : Prop where
  machine : ∃ keypad, v.machine = { w.machine with keypad := keypad }
  quit : v.keyboard.quit = (w.keyboard.quit || f.events.any Event.asksQuit)
  pause : v.keyboard.pause = (w.keyboard.pause || f.events.any Event.asksPause)
  paused : v.paused = (w.adjustAll f.adjustments).paused
  palette : v.palette = w.palette
  shown : v.shown = w.shown
  presented : v.presented = w.presented
  running : v.running = w.running
  fault : v.fault = w.fault

theorem polled (w : Window σ) (f : Frame) :
    Polled w f ((w.adjustAll f.adjustments).poll f.events) := by
  have hadjust := w.adjustAll_eq f.adjustments
  have hpoll := (w.adjustAll f.adjustments).poll_eq f.events
  obtain ⟨hquit, hpause⟩ := (w.adjustAll f.adjustments).flags_poll f.events
  rw [hadjust] at hpoll hquit hpause ⊢
  refine ⟨?_, hquit, hpause, ?_, ?_, ?_, ?_, ?_, ?_⟩ <;> rw [hpoll]
  exact ⟨_, rfl⟩

/-- The window `v` that completes a tick of `w`, apart from picture and time. -/
structure Completed (w v : Window σ) : Prop where
  machine : v.machine = w.machine
  keyboard : v.keyboard = w.keyboard
  palette : v.palette = w.palette
  size : v.size = w.size
  running : v.running = w.running
  paused : v.paused = w.paused
  fault : v.fault = w.fault
  playing : v.buzzer.playing = (w.machine.timers.soundActive && !w.paused)

theorem completed (w : Window σ) (dt : Float) (redraw : Bool) :
    Completed w (w.complete dt redraw) := by
  have hplaying := w.buzzer.playing_update w.paused w.machine.timers.soundActive
  rw [complete, completeTo, refresh]
  split
  · exact ⟨rfl, rfl, rfl, rfl, rfl, rfl, rfl, hplaying⟩
  · exact ⟨rfl, rfl, rfl, rfl, rfl, rfl, rfl, hplaying⟩

/-- To complete a tick is to present the display, if that is asked for or the size is not the one
presented last, and else to leave on show what was presented last. -/
theorem shown_complete (w : Window σ) (dt : Float) (redraw : Bool) :
    ((redraw = true ∨ w.size ≠ w.shownSize) ∧
      (w.complete dt redraw).shown = some (.ofDisplay w.palette w.machine.display) ∧
      (w.complete dt redraw).shownSize = w.size ∧
      (w.complete dt redraw).presented = w.presented + 1) ∨
    (redraw = false ∧ (w.complete dt redraw).shown = w.shown ∧
      (w.complete dt redraw).presented = w.presented) := by
  rw [complete, completeTo, refresh]
  by_cases h : redraw = true ∨ w.updateBuzzer.size ≠ w.updateBuzzer.shownSize
  · rw [if_pos h]
    exact .inl ⟨h, rfl, rfl, rfl⟩
  · rw [if_neg h]
    have hredraw : redraw = false := Bool.eq_false_iff.mpr fun hr => h (.inl hr)
    exact .inr ⟨hredraw, rfl, rfl⟩

/-- However far a tick is completed, it reaches neither the machine nor the fault. -/
theorem fault_completeTo (w : Window σ) (dt : Float) (redraw : Bool) (stage : Stage) :
    (w.completeTo dt redraw stage).machine = w.machine ∧
      (w.completeTo dt redraw stage).fault = w.fault := by
  cases stage with
  | events | steps n | frame | sound => exact ⟨rfl, rfl⟩
  | picture =>
    rw [completeTo, refresh]
    split <;> exact ⟨rfl, rfl⟩
  | done =>
    have hc := w.completed dt redraw
    exact ⟨hc.machine, hc.fault⟩

variable [RandomSource σ]

theorem tick_of_quit {events : List Event} (hquit : (w.poll events).keyboard.quit = true) :
    w.tick dt events = { w.poll events with running := false } := by
  rw [tick, tickTo]
  dsimp only
  rw [if_neg Stage.noConfusion, if_pos hquit]

theorem tick_of_paused {events : List Event} (hquit : (w.poll events).keyboard.quit = false)
    (hpaused : (w.poll events).togglePause.paused = true) :
    w.tick dt events = (w.poll events).togglePause.complete dt false := by
  rw [tick, tickTo]
  dsimp only
  rw [if_neg Stage.noConfusion, if_neg (Bool.eq_false_iff.mp hquit), if_pos hpaused]
  rfl

theorem tick_of_unpaused {events : List Event} (hquit : (w.poll events).keyboard.quit = false)
    (hpaused : (w.poll events).togglePause.paused = false) :
    w.tick dt events = (w.poll events).togglePause.runFrame dt := by
  rw [tick, tickTo]
  dsimp only
  rw [if_neg Stage.noConfusion, if_neg (Bool.eq_false_iff.mp hquit),
    if_neg (Bool.eq_false_iff.mp hpaused)]
  rfl

theorem runFrameTo_of_ok {stage : Stage} (hstage : stage.keepsFault = true) {m : Machine σ}
    {redraw : Bool} (hframe : w.machine.frame frameRate = (m, .ok redraw)) :
    w.runFrameTo dt stage = { w with machine := m }.completeTo dt redraw stage := by
  cases stage with
  | sound | picture | done =>
    dsimp only [runFrameTo]
    rw [hframe]
  | events | steps n | frame => cases hstage

theorem runFrameTo_of_error {stage : Stage} (hstage : stage.keepsFault = true) {m : Machine σ}
    {f : Fault} (hframe : w.machine.frame frameRate = (m, .error f)) :
    w.runFrameTo dt stage = { w with machine := m, fault := some f, running := false } := by
  cases stage with
  | sound | picture | done =>
    dsimp only [runFrameTo]
    rw [hframe]
  | events | steps n | frame => cases hstage

theorem runFrame_of_ok {m : Machine σ} {redraw : Bool}
    (hframe : w.machine.frame frameRate = (m, .ok redraw)) :
    w.runFrame dt = { w with machine := m }.complete dt redraw := runFrameTo_of_ok rfl hframe

theorem runFrame_of_error {m : Machine σ} {f : Fault}
    (hframe : w.machine.frame frameRate = (m, .error f)) :
    w.runFrame dt = { w with machine := m, fault := some f, running := false } :=
  runFrameTo_of_error rfl hframe

/-- **What becomes of a window in a tick**, once it has taken in the events, by the way the tick
takes: the end is asked for, the window is paused, its machine runs a frame, or its machine
faults. -/
inductive Ticked (dt : Float) (w : Window σ) : Window σ → Prop where
  | quit (hquit : w.keyboard.quit = true) : Ticked dt w { w with running := false }
  | paused (hquit : w.keyboard.quit = false) (hpaused : w.togglePause.paused = true) :
    Ticked dt w (w.togglePause.complete dt false)
  | ran (hquit : w.keyboard.quit = false) (hpaused : w.togglePause.paused = false)
      (m : Machine σ) (redraw : Bool) (hframe : w.machine.frame frameRate = (m, .ok redraw)) :
    Ticked dt w ({ w.togglePause with machine := m }.complete dt redraw)
  | faulted (hquit : w.keyboard.quit = false) (hpaused : w.togglePause.paused = false)
      (m : Machine σ) (f : Fault) (hframe : w.machine.frame frameRate = (m, .error f)) :
    Ticked dt w { w.togglePause with machine := m, fault := some f, running := false }

theorem ticked (dt : Float) (w : Window σ) (events : List Event) :
    Ticked dt (w.poll events) (w.tick dt events) := by
  cases hquit : (w.poll events).keyboard.quit with
  | true =>
    rw [tick_of_quit hquit]
    exact .quit hquit
  | false =>
    cases hpaused : (w.poll events).togglePause.paused with
    | true =>
      rw [tick_of_paused hquit hpaused]
      exact .paused hquit hpaused
    | false =>
      rw [tick_of_unpaused hquit hpaused]
      rcases hframe : (w.poll events).machine.frame frameRate with ⟨m, f | redraw⟩
      · rw [runFrame_of_error (w := (w.poll events).togglePause) hframe]
        exact .faulted hquit hpaused m f hframe
      · rw [runFrame_of_ok (w := (w.poll events).togglePause) hframe]
        exact .ran hquit hpaused m redraw hframe

/-! ## A session -/

/-- The window behind a frame that is not disrupted. -/
def next (dt : Float) (w : Window σ) (f : Frame) : Window σ :=
  (w.adjustAll f.adjustments).tick dt f.events

/-- The window in a frame that is disrupted at a stage of its tick. -/
def nextTo (dt : Float) (w : Window σ) (f : Frame) (stage : Stage) : Window σ :=
  (w.adjustAll f.adjustments).tickTo dt f.events stage

/-- In a window at which nothing is typed a frame is a frame of its machine. -/
theorem next_of_frame (hkeyboard : w.keyboard = .idle) (hpaused : w.paused = false)
    (dt : Float) {m : Machine σ} {redraw : Bool}
    (hframe : w.machine.frame frameRate = (m, .ok redraw)) :
    w.next dt (.ofEvents []) = { w with machine := m }.complete dt redraw := by
  have hpoll : w.poll [] = w := rfl
  have htoggle : w.togglePause = w := by
    cases w
    cases hkeyboard
    cases hpaused
    rfl
  have hquit : (w.poll []).keyboard.quit = false := by rw [hpoll, hkeyboard]; rfl
  have hgoes : (w.poll []).togglePause.paused = false := by rw [hpoll, htoggle, hpaused]
  have htick : w.tick dt [] = (w.poll []).togglePause.runFrame dt := tick_of_unpaused hquit hgoes
  rw [hpoll, htoggle, runFrame_of_ok hframe] at htick
  exact htick

/-- Something has cut a session short before the window could keep a fault of that frame. -/
def Session.CutEarly (s : Session σ) : Prop :=
  ∃ stage d, s.disruption = some (stage, d) ∧ stage.keepsFault = false

namespace Session

theorem loop_of_stopped (hw : w.running = false) (dt : Float) (frames : List Frame) :
    loop dt w frames = ⟨[], w, none⟩ := by
  cases frames <;> simp [loop, hw]

/-- A session without frames is one in which the end is asked for. -/
theorem loop_nil (hw : w.running = true) :
    loop dt w [] = ⟨[w.next dt .closing], w.next dt .closing, none⟩ := by
  rw [loop, if_pos hw]
  rfl

theorem loop_cons (hw : w.running = true) {f : Frame} (hf : f.disruption = none)
    (frames : List Frame) :
    loop dt w (f :: frames) =
      ⟨w.next dt f :: (loop dt (w.next dt f) frames).trace,
        (loop dt (w.next dt f) frames).final, (loop dt (w.next dt f) frames).disruption⟩ := by
  rw [loop, if_pos hw]
  dsimp only
  rw [hf]
  rfl

theorem loop_cons_of_disrupted (hw : w.running = true) {f : Frame} {stage : Stage} {d : Disruption}
    (hf : f.disruption = some (stage, d)) (frames : List Frame) :
    loop dt w (f :: frames) = ⟨[], w.nextTo dt f stage, some (stage, d)⟩ := by
  rw [loop, if_pos hw]
  dsimp only
  rw [hf]
  rfl

/-- **The windows of a session.** Each comes of a frame and of the window before it, which was
running. One that does not run any more is the last. -/
theorem loop_trace {frames : List Frame} {before later : List (Window σ)}
    (h : (loop dt w frames).trace = before ++ v :: later) :
    ∃ f, (frames ++ [Frame.closing])[before.length]? = some f ∧ f.disruption = none ∧
      (before.getLastD w).running = true ∧ v = (before.getLastD w).next dt f ∧
      (v.running = false →
        later = [] ∧ (loop dt w frames).final = v ∧ (loop dt w frames).disruption = none) := by
  induction frames generalizing w before with
  | nil =>
    cases hw : w.running with
    | false => simp [loop, hw] at h
    | true =>
      rw [loop_nil hw] at h ⊢
      cases before with
      | nil =>
        cases h
        exact ⟨.closing, rfl, rfl, hw, rfl, fun _ => ⟨rfl, rfl, rfl⟩⟩
      | cons b before => simp at h
  | cons f frames ih =>
    cases hw : w.running with
    | false => simp [loop, hw] at h
    | true =>
      cases hf : f.disruption with
      | some d =>
        -- a disruption comes instead of the tick, so there is no window to speak of
        simp [loop, hw, hf] at h
      | none =>
        rw [loop_cons hw hf] at h ⊢
        cases before with
        | nil =>
          obtain ⟨rfl, hlater⟩ := List.cons.inj h
          refine ⟨f, rfl, hf, hw, rfl, fun hv => ?_⟩
          -- the frames that are left find the loop at its end
          have hstop := loop_of_stopped hv dt frames
          rw [hstop] at hlater ⊢
          exact ⟨hlater.symm, rfl, rfl⟩
        | cons b before =>
          obtain ⟨rfl, hlater⟩ := List.cons.inj h
          have hrest := ih hlater
          rwa [List.getLastD_cons]

/-- **The end of a session.** Either nothing disrupts it, and it ends with the window behind its last
tick, or it ends in a frame that is disrupted, with the window that the tick has made by then. -/
theorem loop_end (dt : Float) (w : Window σ) (frames : List Frame) :
    let s := loop dt w frames
    let u := s.trace.getLastD w
    s.disruption = none ∧ s.final = u ∨
    ∃ f stage d, frames[s.trace.length]? = some f ∧ f.disruption = some (stage, d) ∧
      u.running = true ∧ s.final = u.nextTo dt f stage ∧ s.disruption = some (stage, d) := by
  induction frames generalizing w with
  | nil =>
    cases hw : w.running with
    | false =>
      rw [loop_of_stopped hw]
      exact .inl ⟨rfl, rfl⟩
    | true =>
      rw [loop_nil hw]
      exact .inl ⟨rfl, rfl⟩
  | cons f frames ih =>
    cases hw : w.running with
    | false =>
      rw [loop_of_stopped hw]
      exact .inl ⟨rfl, rfl⟩
    | true =>
      cases hf : f.disruption with
      | some disruption =>
        rw [loop_cons_of_disrupted hw hf]
        exact .inr ⟨f, disruption.1, disruption.2, rfl, hf, hw, rfl, rfl⟩
      | none =>
        have hrest := ih (w.next dt f)
        rw [loop_cons hw hf]
        dsimp only
        rw [List.getLastD_cons]
        exact hrest

section

variable {P : List Frame → List (Window σ) → Window σ → Prop} {frames : List Frame}
  {before later : List (Window σ)}

/-- **What a tick keeps, a session keeps**: a property of the frames taken in so far, of the windows
so far and of the present window, as long as this runs. Here it is read off before a tick. -/
theorem kept_before (hstart : P [] [] w)
    (htick : ∀ fs ws u f, P fs ws u → u.running = true → f.disruption = none →
      (u.next dt f).running = true → P (fs ++ [f]) (ws ++ [u.next dt f]) (u.next dt f))
    (h : (loop dt w frames).trace = before ++ v :: later) :
    P ((frames ++ [Frame.closing]).take before.length) before (before.getLastD w) := by
  induction before using List.reverseRecOn generalizing v later with
  | nil => exact hstart
  | append_singleton before u ih =>
    -- the window before this tick has come of a tick itself, and it runs
    obtain ⟨-, -, -, hu, -, -⟩ := loop_trace h
    rw [List.append_assoc] at h
    obtain ⟨f, hf, hundisrupted, hrunning, hnext, -⟩ := loop_trace h
    have hlength : (before ++ [u]).length = before.length + 1 := List.length_append
    rw [List.getLastD_concat, hnext] at hu
    rw [List.getLastD_concat, hlength, List.take_add_one, hf, hnext]
    exact htick _ before _ f (ih h) hrunning hundisrupted hu

/-- The same behind a tick after which the window still runs. -/
theorem kept (hstart : P [] [] w)
    (htick : ∀ fs ws u f, P fs ws u → u.running = true → f.disruption = none →
      (u.next dt f).running = true → P (fs ++ [f]) (ws ++ [u.next dt f]) (u.next dt f))
    (h : (loop dt w frames).trace = before ++ v :: later) (hv : v.running = true) :
    P ((frames ++ [Frame.closing]).take (before.length + 1)) (before ++ [v]) v := by
  obtain ⟨f, hf, hundisrupted, hrunning, rfl, -⟩ := loop_trace h
  rw [List.take_add_one, hf]
  exact htick _ before _ f (kept_before hstart htick h) hrunning hundisrupted hv

end

end Session

end Window

end ChipEight
