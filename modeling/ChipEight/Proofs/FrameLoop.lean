import ChipEight.Proofs.Session
import ChipEight.Proofs.StepByStep

/-!
# The frame loop keeps its account

How far a machine has come in a window can be told from outside: every tick that is not paused runs
one frame, of so many steps, and no other tick runs any. The account is carried from tick to tick
while the window runs (`Accounted`), and the tick that ends the loop is held against it like every
other (`Tallied`). That the account has to be kept in the windows and not in the frames is due to
the pause: it can be asked for by a key, several times in a frame, and set from outside as well, and
only the window after the tick says what came of it.
-/

namespace ChipEight

namespace Window

variable {σ : Type}

/-- How many of these windows are not paused. -/
def unpaused (ws : List (Window σ)) : Nat := ws.countP fun w => !w.paused

theorem unpaused_concat (ws : List (Window σ)) (w : Window σ) :
    unpaused (ws ++ [w]) = unpaused ws + if w.paused = true then 0 else 1 := by
  cases hw : w.paused <;> simp [unpaused, hw]

/-- The account of a running window: `m` is the machine as it was in the beginning, and `ws` are the
windows behind the ticks so far. -/
structure Accounted (m : Machine σ) (ws : List (Window σ)) (w : Window σ) : Prop where
  speed : w.machine.timers.speed = m.timers.speed
  steps : w.machine.steps = unpaused ws * max 1 (m.timers.speed.perSecond / frameRate)
  goes : w.machine.fault = none
  fault : w.fault = none
  asked : w.keyboard.quit = false

/-- The account of the tick in which the frame `f` has made `w` of `u`. -/
structure Tallied (m : Machine σ) (ws : List (Window σ)) (u : Window σ) (f : Frame)
    (w : Window σ) : Prop where
  fault : w.fault = w.machine.fault
  running_iff : w.running = true ↔
    f.events.any Event.asksQuit = false ∧ w.machine.fault = none
  idle : w.paused = true ∨ f.events.any Event.asksQuit = true →
    ∃ keypad, w.machine = { u.machine with keypad := keypad }
  accounted : w.running = true → Accounted m (ws ++ [w]) w
  playing : w.running = true →
    w.buzzer.playing = (!w.paused && decide (0 < w.machine.timers.sound))

variable {m : Machine σ} {ws : List (Window σ)} {u v w : Window σ} {f : Frame}

/-- To complete a tick is to leave the account as it is. -/
theorem Completed.accounted (hc : Completed v w) (h : Accounted m (ws ++ [v]) v) :
    Accounted m (ws ++ [w]) w := by
  have hcount : unpaused (ws ++ [w]) = unpaused (ws ++ [v]) := by
    rw [unpaused_concat, unpaused_concat, hc.paused]
  exact {
    speed := by rw [hc.machine, h.speed]
    steps := by rw [hc.machine, h.steps, hcount]
    goes := by rw [hc.machine, h.goes]
    fault := by rw [hc.fault, h.fault]
    asked := by rw [hc.keyboard, h.asked] }

/-- A tick that is completed goes on, with its account in order. -/
theorem Completed.tallied (hc : Completed v w) (h : Accounted m (ws ++ [v]) v)
    (hv : v.running = true) (hasks : f.events.any Event.asksQuit = false)
    (hidle : v.paused = true → ∃ keypad, v.machine = { u.machine with keypad := keypad }) :
    Tallied m ws u f w := by
  have haccounted := hc.accounted h
  have hrunning : w.running = true := hc.running.trans hv
  exact {
    fault := haccounted.fault.trans haccounted.goes.symm
    running_iff := by simp [hrunning, hasks, haccounted.goes]
    idle := by
      rintro (hpaused | hquit)
      · rw [hc.machine]
        exact hidle (hc.paused.symm.trans hpaused)
      · rw [hasks] at hquit
        cases hquit
    accounted := fun _ => haccounted
    playing := by
      intro _
      rw [hc.playing, hc.paused, hc.machine, Timers.soundActive, Bool.and_comm] }

/-- A new window on a new machine has its account in order. -/
theorem accounted_of_create {image : Image} {speed : Value} {source : σ}
    (hm : Machine.build image speed source = .ok m) {scale : Option Int} {title : Option String}
    {mixer : Mixer} (hw : create m scale title mixer = .ok w) : Accounted m [] w.start := by
  obtain ⟨program, speed, rfl⟩ := Machine.eq_new_of_build hm
  obtain ⟨scale, buzzer, rfl⟩ := eq_new_of_create hw
  exact {
    speed := rfl
    steps := (Nat.zero_mul _).symm
    goes := rfl
    fault := rfl
    asked := rfl }

/-- Of what events reach, only the end has to do with the account. -/
theorem Polled.accounted (hw : Polled u f w) (h : Accounted m ws u)
    (hquit : w.keyboard.quit = false) : Accounted m ws w := by
  obtain ⟨keypad, hmachine⟩ := hw.machine
  exact {
    speed := by rw [hmachine, ← h.speed]
    steps := by rw [hmachine, ← h.steps]
    goes := by rw [hmachine, ← h.goes]
    fault := hw.fault.trans h.fault
    asked := hquit }

theorem Accounted.paused (h : Accounted m ws w) (hpaused : w.togglePause.paused = true) :
    Accounted m (ws ++ [w.togglePause]) w.togglePause where
  speed := h.speed
  steps := by
    rw [unpaused_concat, if_pos hpaused, Nat.add_zero]
    exact h.steps
  goes := h.goes
  fault := h.fault
  asked := h.asked

variable [RandomSource σ]

/-- One frame more, one window more that is not paused. -/
theorem Accounted.ran (h : Accounted m ws w) (hpaused : w.togglePause.paused = false)
    {m' : Machine σ} {redraw : Bool} (hframe : w.machine.frame frameRate = (m', .ok redraw)) :
    Accounted m (ws ++ [{ w.togglePause with machine := m' }])
      { w.togglePause with machine := m' } := by
  have hpaused' : ({ w.togglePause with machine := m' } : Window σ).paused ≠ true :=
    Bool.eq_false_iff.mp hpaused
  obtain ⟨hgoes, hcount⟩ := Machine.counted_of_runSteps_ok h.goes hframe
  have hspeed : m'.timers.speed = w.machine.timers.speed := by
    have hrun := w.machine.speed_of_runSteps (w.machine.timers.speed.stepsPerFrame frameRate) false
    rwa [← Machine.frame, hframe] at hrun
  have hsteps : m'.steps = (unpaused ws + 1) * max 1 (m.timers.speed.perSecond / frameRate) := by
    rw [Nat.add_one_mul, ← h.steps, ← h.speed]
    exact hcount
  exact {
    speed := hspeed.trans h.speed
    steps := by
      rw [unpaused_concat, if_neg hpaused']
      exact hsteps
    goes := hgoes
    fault := h.fault
    asked := h.asked }

/-- **A tick keeps the account**, whichever way it takes. -/
theorem Accounted.tallied (h : Accounted m ws u) (hu : u.running = true) (dt : Float) (f : Frame) :
    Tallied m ws u f (u.next dt f) := by
  have hpolled := u.polled f
  have hticked := ticked dt (u.adjustAll f.adjustments) f.events
  rw [next]
  generalize (u.adjustAll f.adjustments).tick dt f.events = w at hticked ⊢
  generalize (u.adjustAll f.adjustments).poll f.events = q at hpolled hticked
  obtain ⟨keypad, hmachine⟩ := hpolled.machine
  have hrunning : q.running = true := hpolled.running.trans hu
  have hquit : q.keyboard.quit = f.events.any Event.asksQuit := by
    rw [hpolled.quit, h.asked, Bool.false_or]
  -- only the last two ways let the machine run, and only the middle two leave the window running
  cases hticked with
  | quit hasks =>
    have hnone : q.machine.fault = none := by rw [hmachine, ← h.goes]
    rw [hquit] at hasks
    exact {
      fault := (hpolled.fault.trans h.fault).trans hnone.symm
      running_iff := by simp [hasks]
      idle := fun _ => ⟨keypad, hmachine⟩
      accounted := fun hw => absurd hw Bool.false_ne_true
      playing := fun hw => absurd hw Bool.false_ne_true }
  | paused hasks hpaused =>
    have haccounted := (hpolled.accounted h hasks).paused hpaused
    have hidle : q.togglePause.paused = true →
        ∃ keypad, q.togglePause.machine = { u.machine with keypad := keypad } :=
      fun _ => ⟨keypad, hmachine⟩
    exact (completed _ dt false).tallied haccounted hrunning (hquit.symm.trans hasks) hidle
  | ran hasks hpaused m' redraw hframe =>
    have haccounted := (hpolled.accounted h hasks).ran hpaused hframe
    refine (completed _ dt redraw).tallied haccounted hrunning (hquit.symm.trans hasks) ?_
    intro hw
    exact absurd hw (Bool.eq_false_iff.mp hpaused)
  | faulted hasks hpaused m' f' hframe =>
    have hstopped : m'.fault = some f' := by
      have herror : (q.machine.frame frameRate).2 = .error f' := by rw [hframe]
      have hrun := Machine.fault_of_runSteps_error herror
      rwa [← Machine.frame, hframe] at hrun
    rw [hquit] at hasks
    exact {
      fault := hstopped.symm
      running_iff := by simp [hstopped]
      idle := by
        rintro (hw | hw)
        · exact absurd hw (Bool.eq_false_iff.mp hpaused)
        · exact absurd hw (Bool.eq_false_iff.mp hasks)
      accounted := fun hw => absurd hw Bool.false_ne_true
      playing := fun hw => absurd hw Bool.false_ne_true }

/-- A window that has not had a fault keeps the one of its frame from the stage on that says so. -/
theorem fault_runFrameTo (hfault : w.fault = none) (hgoes : w.machine.fault = none) (dt : Float)
    (stage : Stage) :
    (w.runFrameTo dt stage).fault =
      if stage.keepsFault = true then (w.runFrameTo dt stage).machine.fault else none := by
  cases hkeeps : stage.keepsFault with
  | false =>
    rw [if_neg Bool.false_ne_true]
    cases stage with
    | events | steps n | frame => exact hfault
    | sound | picture | done => cases hkeeps
  | true =>
    rw [if_pos rfl]
    rcases hframe : w.machine.frame frameRate with ⟨m', f | redraw⟩
    · have hstopped := Machine.fault_of_runSteps_error (congrArg Prod.snd hframe)
      rw [← Machine.frame, hframe] at hstopped
      rw [runFrameTo_of_error hkeeps hframe]
      exact hstopped.symm
    · obtain ⟨hsame, hkept⟩ := fault_completeTo { w with machine := m' } dt redraw stage
      rw [runFrameTo_of_ok hkeeps hframe, hsame, hkept]
      exact hfault.trans (Machine.counted_of_runSteps_ok hgoes hframe).1.symm

/-- **A disruption finds the fault kept or not**, according to the stage at which it comes. -/
theorem Accounted.fault_nextTo (h : Accounted m ws u) (dt : Float) (f : Frame) (stage : Stage) :
    (u.nextTo dt f stage).fault =
      if stage.keepsFault = true then (u.nextTo dt f stage).machine.fault else none := by
  have hpolled := u.polled f
  rw [nextTo, tickTo]
  dsimp only
  generalize (u.adjustAll f.adjustments).poll f.events = q at hpolled
  obtain ⟨keypad, hmachine⟩ := hpolled.machine
  have hfault : q.fault = none := hpolled.fault.trans h.fault
  have hgoes : q.machine.fault = none := by rw [hmachine, ← h.goes]
  by_cases hevents : stage = .events
  · rw [if_pos hevents, hfault, hgoes, ite_self]
  · rw [if_neg hevents]
    by_cases hquit : q.keyboard.quit = true
    · rw [if_pos hquit]
      exact hfault.trans (by rw [hgoes, ite_self])
    · rw [if_neg hquit]
      by_cases hpaused : q.togglePause.paused = true
      · have hidle : q.togglePause.machine.fault = none := hgoes
        obtain ⟨hsame, hkept⟩ := q.togglePause.fault_completeTo dt false stage
        rw [if_pos hpaused, hkept, hsame, hidle, ite_self]
        exact hfault
      · rw [if_neg hpaused]
        exact q.togglePause.fault_runFrameTo hfault hgoes dt stage

section

variable {image : Image} {speed : Value} {source : σ} {scale : Option Int} {title : Option String}
  {mixer : Mixer} {w₀ : Window σ} {dt : Float} {frames : List Frame}

/-- The account is in order before every tick of a session. -/
theorem accounted_before (hm : Machine.build image speed source = .ok m)
    (hw₀ : create m scale title mixer = .ok w₀) {before later : List (Window σ)}
    (h : (w₀.run dt frames).trace = before ++ w :: later) :
    Accounted m before (before.getLastD w₀.start) :=
  Session.kept_before (P := fun _ => Accounted m) (accounted_of_create hm hw₀)
    (fun _ _ _ f hv hrunning _ hnext => (hv.tallied hrunning dt f).accounted hnext) h

/-- Behind the last tick the fault is kept, if there is one, and the account is in order if the
window still runs. -/
theorem accounted_last (hm : Machine.build image speed source = .ok m)
    (hw₀ : create m scale title mixer = .ok w₀) (hws : (w₀.run dt frames).trace = ws) :
    (ws.getLastD w₀.start).fault = (ws.getLastD w₀.start).machine.fault ∧
      ((ws.getLastD w₀.start).running = true → Accounted m ws (ws.getLastD w₀.start)) := by
  rcases List.eq_nil_or_concat ws with rfl | ⟨before, v, rfl⟩
  · have haccounted : Accounted m [] w₀.start := accounted_of_create hm hw₀
    exact ⟨haccounted.fault.trans haccounted.goes.symm, fun _ => haccounted⟩
  · rw [List.concat_eq_append] at hws ⊢
    rw [List.getLastD_concat]
    obtain ⟨f, -, -, hrunning, hnext, -⟩ := Session.loop_trace hws
    have htally : Tallied m before (before.getLastD w₀.start) f v :=
      hnext ▸ (accounted_before hm hw₀ hws).tallied hrunning dt f
    exact ⟨htally.fault, htally.accounted⟩

/-- **A session ends with the fault of its machine**, if it has one, unless it has been cut short
before that was kept. -/
theorem fault_run (hm : Machine.build image speed source = .ok m)
    (hw₀ : create m scale title mixer = .ok w₀) (dt : Float) (frames : List Frame) :
    let session := w₀.run dt frames
    (session.CutEarly → session.final.fault = none) ∧
      (¬ session.CutEarly → session.final.fault = session.final.machine.fault) := by
  intro session
  have htrace : (w₀.run dt frames).trace = session.trace := rfl
  obtain ⟨hkept, haccounted⟩ := accounted_last hm hw₀ htrace
  rcases Session.loop_end dt w₀.start frames with
    ⟨hnone, hfinal⟩ | ⟨f, stage, d, -, -, hrunning, hfinal, hcut⟩
  · have hshut : session.final = (session.trace.getLastD w₀.start).shutdown :=
      congrArg shutdown hfinal
    refine ⟨?_, fun _ => hshut ▸ hkept⟩
    rintro ⟨stage, d, hcut, -⟩
    cases hnone.symm.trans hcut
  · have hshut : session.final = ((session.trace.getLastD w₀.start).nextTo dt f stage).shutdown :=
      congrArg shutdown hfinal
    have hfault := (haccounted hrunning).fault_nextTo dt f stage
    rw [hshut]
    cases hstage : stage.keepsFault with
    | false =>
      rw [hstage, if_neg Bool.false_ne_true] at hfault
      exact ⟨fun _ => hfault, fun hlate => absurd ⟨stage, d, hcut, hstage⟩ hlate⟩
    | true =>
      rw [hstage, if_pos rfl] at hfault
      refine ⟨?_, fun _ => hfault⟩
      rintro ⟨stage', d', hcut', hstage'⟩
      cases hcut.symm.trans hcut'
      cases hstage.symm.trans hstage'

end

/--
**The frame loop keeps its account.** In every session of a new window on a new machine, each
window of the trace comes of the frame of its tick and of the window before. As long as it runs, its
machine has counted one frame of steps for each tick up to it that was not paused, its buzzer plays
if the sound timer runs and no pause mutes it, and it has no fault. It runs exactly if no event of
the frame asks for the end and the machine has not faulted; if it does not, it is the last one and
the session ends with it. A tick that is paused, or in which the end is asked for, touches nothing
of the machine but the keypad.

In whichever way the session ends, be it by a disruption at any stage of a tick, the buzzer is shut
down, and the window has the fault of its machine, unless the disruption came before it could keep
one. In all this the keys that are held when the focus is lost are let go in any order.
-/
theorem frame_loop_accounts {image : Image} {speed : Value} {source : σ}
    (hm : Machine.build image speed source = .ok m) {scale : Option Int} {title : Option String}
    {mixer : Mixer} {w₀ : Window σ} (hw₀ : create m scale title mixer = .ok w₀) (dt : Float)
    (frames : List Frame) :
    let session := w₀.run dt frames
    (∀ before w later, session.trace = before ++ w :: later →
      let u := before.getLastD w₀.start
      ∃ f, (frames ++ [Frame.closing])[before.length]? = some f ∧ f.disruption = none ∧
        w = u.next dt f ∧
        w.fault = w.machine.fault ∧
        (w.running = true ↔ f.events.any Event.asksQuit = false ∧ w.machine.fault = none) ∧
        (w.running = true →
          w.machine.steps =
            unpaused (before ++ [w]) * max 1 (m.timers.speed.perSecond / frameRate) ∧
          w.buzzer.playing = (!w.paused && decide (0 < w.machine.timers.sound)) ∧
          w.fault = none) ∧
        (w.running = false →
          later = [] ∧ session.final = w.shutdown ∧ session.disruption = none) ∧
        (w.paused = true ∨ f.events.any Event.asksQuit = true →
          ∃ keypad, w.machine = { u.machine with keypad := keypad })) ∧
    (session.final.buzzer.playing = false ∧ session.final.buzzer.tone = false ∧
      session.final.buzzer.mixerOpen = false) ∧
    (session.CutEarly → session.final.fault = none) ∧
      (¬ session.CutEarly → session.final.fault = session.final.machine.fault) := by
  intro session
  refine ⟨fun before w later h => ?_, ⟨rfl, rfl, rfl⟩, fault_run hm hw₀ dt frames⟩
  intro u
  -- the window before is one that runs, so its account is in order, whatever comes of this tick
  have hbefore : Accounted m before u := accounted_before hm hw₀ h
  obtain ⟨f, hf, hundisrupted, hrunning, hnext, hlast⟩ := Session.loop_trace h
  have htally : Tallied m before u f w := hnext ▸ hbefore.tallied hrunning dt f
  refine ⟨f, hf, hundisrupted, hnext, htally.fault, htally.running_iff, fun hw => ?_,
    fun hw => ?_, htally.idle⟩
  · have haccounted := htally.accounted hw
    exact ⟨haccounted.steps, htally.playing hw, haccounted.fault⟩
  · obtain ⟨hlater, hfinal, hcut⟩ := hlast hw
    have hshut : session.final = w.shutdown := congrArg shutdown hfinal
    exact ⟨hlater, hshut, hcut⟩

/-- One frame of a single step, a pause, and the end: the step is counted once, and the window that
is paused has the machine of the one before. -/
theorem frame_loop_accounts_through_pause :
    let frames := [Frame.ofEvents [], .ofEvents [.down Keyboard.pauseKey none]]
    ∃ (m : Machine RepeatingBytes) (w₀ w₁ w₂ w₃ : Window RepeatingBytes),
      (Machine.build (.bytes [0x60, 0x01]) (.int 60) (.ofList []) = .ok m ∧
        create m (some 1) none .off = .ok w₀ ∧
        (w₀.run 0.0 frames).trace = [w₁, w₂, w₃] ∧
        w₂.running = true ∧ w₂.paused = true ∧ w₃.running = false) ∧
      w₂.machine.steps = 1 ∧ w₂.buzzer.playing = false ∧
      (∃ keypad, w₂.machine = { w₁.machine with keypad := keypad }) ∧
      (w₀.run 0.0 frames).final = w₃.shutdown ∧
      (w₀.run 0.0 frames).final.buzzer.playing = false := by
  intro frames
  obtain ⟨m, hm⟩ : ∃ m : Machine RepeatingBytes,
      m = .new ⟨[0x60, 0x01], by decide⟩ ⟨60, by decide⟩ (.ofList []) := ⟨_, rfl⟩
  have hbuild : Machine.build (.bytes [0x60, 0x01]) (.int 60) (.ofList []) = .ok m :=
    hm ▸ Machine.build_new ⟨[0x60, 0x01], by decide⟩ ⟨60, by decide⟩ _
  have hspeed : m.timers.speed.perSecond = 60 := by rw [hm]; rfl
  -- the first frame is the only one of which the machine has to be looked at
  have hframe : m.frame frameRate = ((m.frame frameRate).1, .ok false) := by
    refine Prod.ext rfl ?_
    rw [hm]
    decide +kernel
  let w₀ := new m 1 none .silent
  have hcreate : create m (some 1) none .off = .ok w₀ := rfl
  let w₁ := w₀.start.next 0.0 (.ofEvents [])
  let w₂ := w₁.next 0.0 (.ofEvents [.down Keyboard.pauseKey none])
  let w₃ := w₂.next 0.0 .closing
  have hfirst : Completed { w₀.start with machine := (m.frame frameRate).1 } w₁ := by
    have hnext : w₁ = { w₀.start with machine := (m.frame frameRate).1 }.complete 0.0 false :=
      next_of_frame rfl rfl 0.0 hframe
    rw [hnext]
    exact completed _ _ _
  have hsecond : Completed (w₁.poll [.down Keyboard.pauseKey none]).togglePause w₂ := by
    have hquit : (w₁.poll [.down Keyboard.pauseKey none]).keyboard.quit = false := by
      rw [(flags_poll _ _).1, hfirst.keyboard]
      rfl
    have hpaused : (w₁.poll [.down Keyboard.pauseKey none]).togglePause.paused = true := by
      show (w₁.paused != true) = true
      rw [hfirst.paused]
      rfl
    have htick : w₂ = (w₁.poll [.down Keyboard.pauseKey none]).togglePause.complete 0.0 false :=
      tick_of_paused hquit hpaused
    rw [htick]
    exact completed _ _ _
  have hpaused₁ : w₁.paused = false := hfirst.paused
  have hpaused₂ : w₂.paused = true := by
    rw [hsecond.paused]
    show (w₁.paused != true) = true
    rw [hpaused₁]
    rfl
  have hrunning₁ : w₁.running = true := hfirst.running
  have hrunning₂ : w₂.running = true := hsecond.running.trans hrunning₁
  have htrace : (w₀.run 0.0 frames).trace = [w₁, w₂, w₃] := by
    show (Session.loop 0.0 w₀.start frames).trace = _
    rw [Session.loop_cons rfl rfl, Session.loop_cons hrunning₁ rfl, Session.loop_nil hrunning₂]
  obtain ⟨haccounts, ⟨hplaying, -, -⟩, -, -⟩ := frame_loop_accounts hbuild hcreate 0.0 frames
  obtain ⟨f, hf, -, -, -, -, hgoes, -, hidle⟩ := haccounts [w₁] w₂ [w₃] htrace
  obtain ⟨g, hg, -, -, -, hruns, -, hstops, -⟩ := haccounts [w₁, w₂] w₃ [] htrace
  obtain ⟨hsteps, hsilent, -⟩ := hgoes hrunning₂
  have hrunning₃ : w₃.running = false := by
    cases hg
    refine Bool.eq_false_iff.mpr fun h => ?_
    cases (hruns.mp h).1
  obtain ⟨-, hfinal, -⟩ := hstops hrunning₃
  have hcount : unpaused [w₁, w₂] = 1 := by simp [unpaused, hpaused₁, hpaused₂]
  refine ⟨m, w₀, w₁, w₂, w₃, ⟨hbuild, hcreate, htrace, hrunning₂, hpaused₂, hrunning₃⟩, ?_, ?_,
    hidle (.inl hpaused₂), hfinal, hplaying⟩
  · rw [hsteps, hspeed]
    show unpaused [w₁, w₂] * 1 = 1
    rw [hcount]
  · rw [hsilent, hpaused₂]
    rfl

end Window

end ChipEight
