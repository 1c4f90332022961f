import ChipEight.Proofs.Drawing
import ChipEight.Proofs.Frame
import ChipEight.Proofs.FrameLoop

/-!
# How fresh the picture is

A window does not look at the display after every frame. It relies on the machine to say that the
display has to be shown again, and a machine says so for a sprite that is drawn, not for a display
that is cleared. Since nothing else moves a cell, the picture that a window shows is never older
than the last sprite: it is the display as it is, or the display as it was before it was cleared,
and it stays this old picture until a sprite is drawn or the window gets another size.

To say so a window is followed from the last time it presented its display: the steps of its machine
since then are on record (`stepped`), none of them draws, and that leaves no choice for the display
(`Undrawn`).
-/

namespace ChipEight

namespace Machine

variable {σ : Type}

/-- The word at `pc` draws a sprite. -/
def Draws (m : Machine σ) : Prop :=
  ∃ (x y : Register) (r : Fin 16), m.AtWord (0xD000 + 256 * x + 16 * y + r)

/-- The word at `pc` clears the display. -/
def Clears (m : Machine σ) : Prop := m.AtWord 0x00E0

/-- Steps of which none draws have made the display `d'` of `d`. -/
structure Undrawn (es : List (Machine σ)) (d d' : Display) : Prop where
  draws : ∀ e ∈ es, ¬ e.Draws
  kept : (∀ e ∈ es, ¬ e.Clears) → d' = d
  cleared : (∃ e ∈ es, e.Clears) → d' = .blank

variable {es es' : List (Machine σ)} {d d' d'' : Display}

theorem undrawn_nil (d : Display) : Undrawn (σ := σ) [] d d where
  draws := by simp
  kept _ := rfl
  cleared := by simp

theorem Undrawn.append (h : Undrawn es d d') (h' : Undrawn es' d' d'') :
    Undrawn (es ++ es') d d'' where
  draws e he := by
    rcases List.mem_append.mp he with he | he
    · exact h.draws e he
    · exact h'.draws e he
  kept hnone := by
    have hfirst : d' = d := h.kept fun e he => hnone e (List.mem_append_left es' he)
    have hlater : d'' = d' := h'.kept fun e he => hnone e (List.mem_append_right es he)
    rw [hlater, hfirst]
  cleared := by
    rintro ⟨e, he, hclears⟩
    by_cases hlater : ∃ e ∈ es', e.Clears
    · exact h'.cleared hlater
    · -- the steps behind the last clearing find the display blank and leave it so
      have hsame : d'' = d' := h'.kept fun e he hc => hlater ⟨e, he, hc⟩
      have hnot : e ∉ es' := fun he' => hlater ⟨e, he', hclears⟩
      have hfirst : e ∈ es := (List.mem_append.mp he).resolve_right hnot
      rw [hsame]
      exact h.cleared ⟨e, hfirst, hclears⟩

variable [RandomSource σ] {m m' : Machine σ}

/-- A step that is not refused says whether it draws, and if it does not, it clears the display or
leaves it as it is. -/
theorem undrawn_step (hm : m.fault = none) {now : Bool} (h : m.step = (m', .ok now)) :
    (now = true ↔ m.Draws) ∧ (¬ m.Draws → Undrawn [m] m.display m'.display) := by
  have hok : m.step.2 = .ok now := by rw [h]
  have hframed : Framed m m' now := by
    have hstep := framed_step hm hok
    rwa [h] at hstep
  refine ⟨hframed.redraw_iff, fun hdraws => ?_⟩
  constructor
  · intro e he
    rwa [List.mem_singleton.mp he]
  · intro hnone
    by_contra hne
    rcases hframed.display hne with hclears | hdrawn
    · exact hnone m List.mem_cons_self hclears
    · exact hdraws hdrawn
  · rintro ⟨e, he, hclears⟩
    rw [List.mem_singleton.mp he] at hclears
    apply Display.ext_lit
    intro x y
    rw [hframed.cleared hclears x y, Display.lit_blank]

/-- **What a run of steps asks for** is a new picture if one of them draws, and if none does, it
leaves of the display what the clearing steps leave. -/
theorem undrawn_runSteps {n : Nat} {redraw b : Bool} (hm : m.fault = none)
    (h : m.runSteps n redraw = (m', .ok b)) :
    (b = true ↔ redraw = true ∨ ∃ e ∈ m.steppedIn n, e.Draws) ∧
      ((∀ e ∈ m.steppedIn n, ¬ e.Draws) → Undrawn (m.steppedIn n) m.display m'.display) := by
  induction n generalizing m redraw with
  | zero =>
    cases h
    exact ⟨by simp [steppedIn], fun _ => undrawn_nil _⟩
  | succ n ih =>
    rcases hs : m.step with ⟨m₁, f | now⟩
    · rw [runSteps, hs] at h
      cases h
    · rw [runSteps, hs] at h
      -- what this step asks for is handed on to the rest of the run
      obtain ⟨hnow, hundrawn⟩ := undrawn_step hm hs
      obtain ⟨hlater, hrest⟩ := ih (counted_of_ok hs).1 h
      have hstepped : m.steppedIn (n + 1) = m :: m₁.steppedIn n := by
        rw [steppedIn, hm, hs]
      rw [hstepped]
      constructor
      · rw [hlater, Bool.or_eq_true, hnow, or_assoc]
        simp
      · intro hnone
        have hfirst := hundrawn (hnone m List.mem_cons_self)
        have hbehind := hrest fun e he => hnone e (List.mem_cons_of_mem m he)
        exact hfirst.append hbehind

/-- Two frames of two steps: the first one draws a zero in the corner, the second one clears it. -/
theorem frames_draw_and_clear :
    ∃ m m₁ m₂ : Machine RepeatingBytes,
      build (.bytes [0xA0, 0x50, 0xD0, 0x15, 0x00, 0xE0, 0x12, 0x06]) (.int 120) (.ofList []) =
        .ok m ∧
      m.frame frameRate = (m₁, .ok true) ∧ m₁.display.lit 0 0 = true ∧
      m₁.frame frameRate = (m₂, .ok false) ∧ m₂.display = .blank := by
  obtain ⟨m, hm⟩ : ∃ m : Machine RepeatingBytes,
      m = .new ⟨[0xA0, 0x50, 0xD0, 0x15, 0x00, 0xE0, 0x12, 0x06], by decide⟩ ⟨120, by decide⟩
        (.ofList []) := ⟨_, rfl⟩
  have hbuild := build_new ⟨[0xA0, 0x50, 0xD0, 0x15, 0x00, 0xE0, 0x12, 0x06], by decide⟩
    ⟨120, by decide⟩ (RepeatingBytes.ofList [])
  obtain ⟨hfirst, hsecond, ⟨hgoes, hpc, hword⟩, hdark, hcovers, ⟨hgoes', hpc', hword'⟩, hframe⟩ :
      m.step.2 = .ok false ∧ m.step.1.step.2 = .ok true ∧
        (m.step.1.fault = none ∧ m.step.1.pc ≤ 0xFFE ∧ m.step.1.word = 0xD015) ∧
        m.step.1.display.lit 0 0 = false ∧ m.step.1.covers 0 1 5 0 0 = true ∧
        (m.step.1.step.1.fault = none ∧ m.step.1.step.1.pc ≤ 0xFFE ∧
          m.step.1.step.1.word = 0x00E0) ∧
        (m.step.1.step.1.frame frameRate).2 = .ok false := by
    rw [hm]
    decide +kernel
  have hcorner : m.step.1.step.1.display.lit 0 0 = true := by
    obtain ⟨hcells, -⟩ := drawn_of_ok (x := 0) (y := 1) (n := 5) hgoes hsecond ⟨hpc, hword⟩
    rw [hcells, hdark]
    exact congrArg (false != ·) hcovers
  have hdrawn : m.frame frameRate = (m.step.1.step.1, .ok true) := by
    have hsteps : m.timers.speed.stepsPerFrame frameRate = 2 := by rw [hm]; rfl
    have hs : m.step = (m.step.1, .ok false) := Prod.ext rfl hfirst
    have hs' : m.step.1.step = (m.step.1.step.1, .ok true) := Prod.ext rfl hsecond
    rw [frame, hsteps, runSteps, hs]
    dsimp only
    rw [runSteps, hs']
    rfl
  generalize m.step.1.step.1 = m₁ at *
  have hcleared : m₁.frame frameRate = ((m₁.frame frameRate).1, .ok false) := Prod.ext rfl hframe
  have hblank : (m₁.frame frameRate).1.display = .blank := by
    obtain ⟨n, hn⟩ := stepsPerFrame_eq_succ m₁.timers.speed frameRate
    rw [frame, hn] at hcleared ⊢
    obtain ⟨hasked, hundrawn⟩ := undrawn_runSteps hgoes' hcleared
    have hnone : ∀ e ∈ m₁.steppedIn (n + 1), ¬ e.Draws :=
      fun e he hd => Bool.false_ne_true (hasked.mpr (.inr ⟨e, he, hd⟩))
    have hmem : m₁ ∈ m₁.steppedIn (n + 1) := by
      rw [steppedIn, hgoes']
      exact List.mem_cons_self
    exact (hundrawn hnone).cleared ⟨m₁, hmem, hpc', hword'⟩
  exact ⟨m, m₁, (m₁.frame frameRate).1, hm ▸ hbuild, hdrawn, hcorner, hcleared, hblank⟩

end Machine

namespace Window

variable {σ : Type} [RandomSource σ]

/-- The machines that take the steps of the tick in which the window takes in a frame. -/
def steppedBy (w : Window σ) (f : Frame) : List (Machine σ) :=
  let v := (w.adjustAll f.adjustments).poll f.events
  if v.keyboard.quit || v.togglePause.paused then []
  else v.machine.steppedIn (v.machine.timers.speed.stepsPerFrame frameRate)

/-- The window behind some frames. -/
def after (dt : Float) (w : Window σ) (fs : List Frame) : Window σ := fs.foldl (next dt) w

/-- The machines that take the steps of these frames, in their order. -/
def stepped (dt : Float) (w : Window σ) : List Frame → List (Machine σ)
  | [] => []
  | f :: fs => w.steppedBy f ++ stepped dt (w.next dt f) fs

theorem after_append (dt : Float) (w : Window σ) (fs gs : List Frame) :
    w.after dt (fs ++ gs) = (w.after dt fs).after dt gs := List.foldl_append

theorem after_concat (dt : Float) (w : Window σ) (fs : List Frame) (f : Frame) :
    w.after dt (fs ++ [f]) = (w.after dt fs).next dt f := after_append dt w fs [f]

theorem stepped_concat (dt : Float) (w : Window σ) (fs : List Frame) (f : Frame) :
    w.stepped dt (fs ++ [f]) = w.stepped dt fs ++ (w.after dt fs).steppedBy f := by
  induction fs generalizing w with
  | nil => exact List.append_nil _
  | cons g fs ih =>
    have hrest := ih (w.next dt g)
    rw [List.cons_append, stepped, hrest, stepped, List.append_assoc]
    rfl

/-- **What a tick does to the picture**, as long as the window runs: it presents the display, or it
leaves on show what was presented last, and then none of its steps draws. -/
theorem shown_next {u : Window σ} (hgoes : u.machine.fault = none) (dt : Float) (f : Frame)
    (hrunning : (u.next dt f).running = true) :
    (u.next dt f).palette = u.palette ∧
    ((u.next dt f).shown = some (.ofDisplay u.palette (u.next dt f).machine.display) ∨
      (u.next dt f).shown = u.shown ∧ (u.next dt f).presented = u.presented ∧
        Machine.Undrawn (u.steppedBy f) u.machine.display (u.next dt f).machine.display) := by
  have hpolled := u.polled f
  have hticked := ticked dt (u.adjustAll f.adjustments) f.events
  rw [next] at hrunning ⊢
  rw [steppedBy]
  generalize (u.adjustAll f.adjustments).tick dt f.events = w at hrunning hticked ⊢
  generalize (u.adjustAll f.adjustments).poll f.events = q at hpolled hticked ⊢
  obtain ⟨keypad, hmachine⟩ := hpolled.machine
  have hdisplay : q.machine.display = u.machine.display := by rw [hmachine]
  have hgoes' : q.machine.fault = none := by rw [hmachine, ← hgoes]
  cases hticked with
  | quit hasks => cases hrunning
  | paused hasks hpaused =>
    -- a paused window may have got a new size, but its machine makes no step
    have hc := completed q.togglePause dt false
    have hnone : (q.keyboard.quit || q.togglePause.paused) = true := by rw [hpaused, Bool.or_true]
    rw [hc.palette, hc.machine, if_pos hnone, ← hpolled.palette, ← hpolled.shown,
      ← hpolled.presented, ← hdisplay]
    refine ⟨rfl, ?_⟩
    rcases q.togglePause.shown_complete dt false with ⟨-, hshown, -⟩ | ⟨-, hshown, hpresented⟩
    · exact .inl hshown
    · exact .inr ⟨hshown, hpresented, Machine.undrawn_nil _⟩
  | ran hasks hpaused m redraw hframe =>
    have hc := completed { q.togglePause with machine := m } dt redraw
    have hruns : ¬ (q.keyboard.quit || q.togglePause.paused) = true := by
      rw [hasks, hpaused]
      exact Bool.false_ne_true
    rw [hc.palette, hc.machine, if_neg hruns, ← hpolled.palette, ← hpolled.shown,
      ← hpolled.presented, ← hdisplay]
    refine ⟨rfl, ?_⟩
    rcases shown_complete { q.togglePause with machine := m } dt redraw with
      ⟨-, hshown, -⟩ | ⟨hredraw, hshown, hpresented⟩
    · exact .inl hshown
    · refine .inr ⟨hshown, hpresented, ?_⟩
      obtain ⟨hasked, hundrawn⟩ := Machine.undrawn_runSteps hgoes' hframe
      -- a step that draws would have asked for the picture
      apply hundrawn
      intro e he hdraws
      have hwanted : redraw = true := hasked.mpr (.inr ⟨e, he, hdraws⟩)
      rw [hredraw] at hwanted
      cases hwanted
  | faulted hasks hpaused m f' hframe => cases hrunning

/-- The window `w`, which has come of `w₀`, shows what it presented behind the frames `early`. In
the frames since then, `late`, nothing has been presented, and nothing drawn. -/
structure Shows (dt : Float) (w₀ : Window σ) (early late : List Frame) (w : Window σ) : Prop where
  comes : w = (w₀.after dt early).after dt late
  presented : (w₀.after dt early).shown =
    some (.ofDisplay .standard (w₀.after dt early).machine.display)
  shown : w.shown = (w₀.after dt early).shown
  counted : w.presented = (w₀.after dt early).presented
  undrawn : Machine.Undrawn ((w₀.after dt early).stepped dt late)
    (w₀.after dt early).machine.display w.machine.display

variable {dt : Float} {w₀ u : Window σ} {early late : List Frame}

/-- **A tick shows a new picture or keeps the old one.** -/
theorem Shows.next (h : Shows dt w₀ early late u) (hgoes : u.machine.fault = none)
    (hpalette : u.palette = .standard) {f : Frame} (hrunning : (u.next dt f).running = true) :
    (u.next dt f).palette = .standard ∧
      ∃ early' late', (early ++ late) ++ [f] = early' ++ late' ∧
        Shows dt w₀ early' late' (u.next dt f) := by
  obtain ⟨hsame, hpicture⟩ := shown_next hgoes dt f hrunning
  rw [hpalette] at hsame hpicture
  refine ⟨hsame, ?_⟩
  rcases hpicture with hshown | ⟨hshown, hpresented, hundrawn⟩
  · have hcomes : u.next dt f = w₀.after dt ((early ++ late) ++ [f]) := by
      rw [after_concat, after_append, ← h.comes]
    refine ⟨(early ++ late) ++ [f], [], (List.append_nil _).symm, ?_⟩
    exact {
      comes := hcomes
      presented := hcomes ▸ hshown
      shown := by rw [hcomes]
      counted := by rw [hcomes]
      undrawn := by
        rw [hcomes]
        exact Machine.undrawn_nil _ }
  · refine ⟨early, late ++ [f], List.append_assoc early late [f], ?_⟩
    exact {
      comes := by rw [after_concat, ← h.comes]
      presented := h.presented
      shown := hshown.trans h.shown
      counted := hpresented.trans h.counted
      undrawn := by
        rw [stepped_concat, ← h.comes]
        exact h.undrawn.append hundrawn }

/-- A picture that nothing has been drawn since is still right if nothing has been cleared since, or
nothing was lit before. -/
theorem Shows.fresh_iff (h : Shows dt w₀ early late u) :
    u.shown = some (.ofDisplay .standard u.machine.display) ↔
      (w₀.after dt early).machine.display = .blank ∨
        ∀ e ∈ (w₀.after dt early).stepped dt late, ¬ e.Clears := by
  rw [h.shown, h.presented, Option.some.injEq, Picture.ofDisplay_inj Palette.standard_colours]
  constructor
  · intro hsame
    by_cases hclears : ∃ e ∈ (w₀.after dt early).stepped dt late, e.Clears
    · exact .inl (hsame.trans (h.undrawn.cleared hclears))
    · exact .inr fun e he hc => hclears ⟨e, he, hc⟩
  · rintro (hblank | hnone)
    · by_cases hclears : ∃ e ∈ (w₀.after dt early).stepped dt late, e.Clears
      · rw [hblank, h.undrawn.cleared hclears]
      · exact (h.undrawn.kept fun e he hc => hclears ⟨e, he, hc⟩).symm
    · exact (h.undrawn.kept hnone).symm

/-- The window `u`, followed through the frames `fs` from the loop's start at `w₀` on. -/
def Followed (m : Machine σ) (dt : Float) (w₀ : Window σ) (fs : List Frame)
    (ws : List (Window σ)) (u : Window σ) : Prop :=
  Accounted m ws u ∧ u.palette = .standard ∧
    ∃ early late, fs = early ++ late ∧ Shows dt w₀ early late u

theorem followed_of_create {m : Machine σ} {image : Image} {speed : Value} {source : σ}
    (hm : Machine.build image speed source = .ok m) {scale : Option Int} {title : Option String}
    {mixer : Mixer} {w : Window σ} (hw : create m scale title mixer = .ok w) (dt : Float) :
    Followed m dt w.start [] [] w.start := by
  have haccounted := accounted_of_create hm hw
  obtain ⟨scale, buzzer, rfl⟩ := eq_new_of_create hw
  refine ⟨haccounted, rfl, [], [], rfl, ?_⟩
  -- the display is presented before the first frame
  exact {
    comes := rfl
    presented := rfl
    shown := rfl
    counted := rfl
    undrawn := Machine.undrawn_nil _ }

theorem Followed.next {m : Machine σ} {fs : List Frame} {ws : List (Window σ)} {f : Frame}
    (h : Followed m dt w₀ fs ws u) (hu : u.running = true)
    (hrunning : (u.next dt f).running = true) :
    Followed m dt w₀ (fs ++ [f]) (ws ++ [u.next dt f]) (u.next dt f) := by
  obtain ⟨haccounted, hpalette, early, late, rfl, hshows⟩ := h
  obtain ⟨hpalette', hshows'⟩ := hshows.next haccounted.goes hpalette hrunning
  exact ⟨(haccounted.tallied hu dt f).accounted hrunning, hpalette', hshows'⟩

/-! ## A session with a picture out of date -/

/-- The window of this machine presents the zero and still shows it when it has been cleared. -/
theorem session_draws_and_clears :
    ∃ (m : Machine RepeatingBytes) (w₀ w₁ w₂ w₃ : Window RepeatingBytes),
      Machine.build (.bytes [0xA0, 0x50, 0xD0, 0x15, 0x00, 0xE0, 0x12, 0x06]) (.int 120)
        (.ofList []) = .ok m ∧
      create m (some 1) none .off = .ok w₀ ∧
      (w₀.run 0.0 [.ofEvents [], .ofEvents []]).trace = [w₁, w₂, w₃] ∧ w₂.running = true ∧
      w₂.shown ≠ some (.ofDisplay .standard w₂.machine.display) := by
  obtain ⟨m, m₁, m₂, hbuild, hdrawn, hcorner, hcleared, hblank⟩ := Machine.frames_draw_and_clear
  let w₀ := new m 1 none .silent
  let w₁ := w₀.start.next 0.0 (.ofEvents [])
  let w₂ := w₁.next 0.0 (.ofEvents [])
  have hw₁ : w₁ = { w₀.start with machine := m₁ }.complete 0.0 true :=
    next_of_frame rfl rfl 0.0 hdrawn
  have hfirst : Completed { w₀.start with machine := m₁ } w₁ := hw₁ ▸ completed _ _ _
  have hframe : w₁.machine.frame frameRate = (m₂, .ok false) := by rw [hfirst.machine, hcleared]
  have hw₂ : w₂ = { w₁ with machine := m₂ }.complete 0.0 false :=
    next_of_frame hfirst.keyboard hfirst.paused 0.0 hframe
  have hsecond : Completed { w₁ with machine := m₂ } w₂ := hw₂ ▸ completed _ _ _
  have hrunning : w₁.running = true := hfirst.running
  have hrunning' : w₂.running = true := hsecond.running.trans hrunning
  have htrace : (w₀.run 0.0 [.ofEvents [], .ofEvents []]).trace =
      [w₁, w₂, w₂.next 0.0 .closing] := by
    show (Session.loop 0.0 w₀.start _).trace = _
    rw [Session.loop_cons rfl rfl, Session.loop_cons hrunning rfl, Session.loop_nil hrunning']
  have hpresented : w₁.shown = some (.ofDisplay .standard m₁.display) ∧
      w₁.size = w₁.shownSize := by
    rcases shown_complete { w₀.start with machine := m₁ } 0.0 true with
      ⟨-, hshown, hsize, -⟩ | ⟨hredraw, -⟩
    · rw [← hw₁] at hshown hsize
      exact ⟨hshown, hfirst.size.trans hsize.symm⟩
    · cases hredraw
  have hkept : w₂.shown = w₁.shown := by
    rcases shown_complete { w₁ with machine := m₂ } 0.0 false with
      ⟨hasked | hsize, -⟩ | ⟨-, hshown, -⟩
    · cases hasked
    · exact absurd hpresented.2 hsize
    · rwa [← hw₂] at hshown
  have hdisplay : w₂.machine.display = .blank :=
    (congrArg Machine.display hsecond.machine).trans hblank
  refine ⟨m, w₀, w₁, w₂, _, hbuild, rfl, htrace, hrunning', ?_⟩
  rw [hkept, hpresented.1, hdisplay, ne_eq, Option.some.injEq,
    Picture.ofDisplay_inj Palette.standard_colours]
  intro hsame
  rw [hsame, Display.lit_blank] at hcorner
  cases hcorner

/-! ## The picture in every session -/

/--
**A picture goes out of date by a clearing only.** In every session of a new window on a new
machine, whatever its frames and in whatever order keys are let go in them, there is for each window
that runs a last time at which the display was presented, and the window still shows the picture of
then. No sprite has been drawn since. So the picture is out of date exactly if the display was not
blank then and has been cleared since.
-/
theorem shown_unless_cleared {m : Machine σ} {image : Image} {speed : Value} {source : σ}
    (hm : Machine.build image speed source = .ok m) {scale : Option Int} {title : Option String}
    {mixer : Mixer} (hw₀ : create m scale title mixer = .ok w₀) (dt : Float) (frames : List Frame)
    {before later : List (Window σ)} {w : Window σ}
    (h : (w₀.run dt frames).trace = before ++ w :: later) (hw : w.running = true) :
    ∃ early late, (frames ++ [Frame.closing]).take (before.length + 1) = early ++ late ∧
      let v := w₀.start.after dt early
      let es := v.stepped dt late
      w = v.after dt late ∧
      v.shown = some (.ofDisplay .standard v.machine.display) ∧
      w.shown = v.shown ∧ w.presented = v.presented ∧
      (∀ e ∈ es, ¬ e.Draws) ∧
      (w.shown = some (.ofDisplay .standard w.machine.display) ↔
        v.machine.display = .blank ∨ ∀ e ∈ es, ¬ e.Clears) := by
  obtain ⟨-, -, early, late, htake, hshows⟩ :=
    Session.kept (followed_of_create hm hw₀ dt) (fun _ _ _ _ hu hruns _ => hu.next hruns) h hw
  exact ⟨early, late, htake, hshows.comes, hshows.presented, hshows.shown, hshows.counted,
    hshows.undrawn.draws, hshows.fresh_iff⟩

/-- A zero is drawn and then cleared: what has come between picture and display is a clearing. -/
theorem shown_unless_cleared_zero :
    ∃ (m : Machine RepeatingBytes) (w₀ w₁ w₂ w₃ : Window RepeatingBytes),
      (Machine.build (.bytes [0xA0, 0x50, 0xD0, 0x15, 0x00, 0xE0, 0x12, 0x06]) (.int 120)
        (.ofList []) = .ok m ∧
      create m (some 1) none .off = .ok w₀ ∧
      (w₀.run 0.0 [.ofEvents [], .ofEvents []]).trace = [w₁] ++ w₂ :: [w₃] ∧
      w₂.running = true) ∧
      ∃ early late, [Frame.ofEvents [], .ofEvents []] = early ++ late ∧
        w₂.shown = (w₀.start.after 0.0 early).shown ∧
        (w₀.start.after 0.0 early).machine.display ≠ .blank ∧
        ∃ e ∈ (w₀.start.after 0.0 early).stepped 0.0 late, e.Clears := by
  obtain ⟨m, w₀, w₁, w₂, w₃, hbuild, hcreate, htrace, hrunning, hstale⟩ := session_draws_and_clears
  have hcut : (w₀.run 0.0 [.ofEvents [], .ofEvents []]).trace = [w₁] ++ w₂ :: [w₃] := htrace
  obtain ⟨early, late, htake, -, -, hsame, -, -, hfresh⟩ :=
    shown_unless_cleared hbuild hcreate 0.0 _ hcut hrunning
  rw [ne_eq, hfresh, not_or] at hstale
  obtain ⟨hlit, hclears⟩ := hstale
  refine ⟨m, w₀, w₁, w₂, w₃, ⟨hbuild, hcreate, hcut, hrunning⟩, early, late, htake, hsame, hlit, ?_⟩
  by_contra hnone
  exact hclears fun e he hc => hnone ⟨e, he, hc⟩

/-- The picture is out of date then, though the window runs and there has been no fault. -/
theorem stale_after_clear :
    ∃ (m : Machine RepeatingBytes) (w₀ w : Window RepeatingBytes),
      Machine.build (.bytes [0xA0, 0x50, 0xD0, 0x15, 0x00, 0xE0, 0x12, 0x06]) (.int 120)
        (.ofList []) = .ok m ∧
      create m (some 1) none .off = .ok w₀ ∧
      w ∈ (w₀.run 0.0 [.ofEvents [], .ofEvents []]).trace ∧ w.running = true ∧
      w.shown ≠ some (.ofDisplay .standard w.machine.display) := by
  obtain ⟨m, w₀, w₁, w₂, w₃, hbuild, hcreate, htrace, hrunning, hstale⟩ := session_draws_and_clears
  refine ⟨m, w₀, w₂, hbuild, hcreate, ?_, hrunning, hstale⟩
  rw [htrace]
  simp

end Window

end ChipEight
