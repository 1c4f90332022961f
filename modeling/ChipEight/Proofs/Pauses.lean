import ChipEight.Proofs.History
import ChipEight.Proofs.Session
import Mathlib.Algebra.GroupWithZero.Nat
import Mathlib.Algebra.Ring.Parity

/-!
# Presses of the pause key

A keyboard remembers that the pause key has gone down, not how often. The window looks at this once
a tick and then pauses or goes on, so that of several presses in one frame only the first has an
effect. A window that nothing pauses from outside is therefore paused after an odd number of frames
with a press, and only as far as an even number of presses is lost on the way is that the same as an
odd number of presses.
-/

namespace ChipEight

namespace Frame

/-- The pause key goes down in the frame. -/
def asksPause (f : Frame) : Bool := f.events.any Event.asksPause

/-- How often the pause key goes down in the frame. -/
def pausePresses (f : Frame) : Nat := f.events.countP Event.asksPause

/-- The pause is not set from outside before the frame. -/
def SparesPause (f : Frame) : Prop := ∀ paused, .pause paused ∉ f.adjustments

end Frame

theorem Frame.sparesPause_of_events (events : List Event) : (ofEvents events).SparesPause :=
  fun _ => List.not_mem_nil

/-- How often the pause key goes down in some frames. -/
def pausePresses (fs : List Frame) : Nat := (fs.map Frame.pausePresses).sum

/-- How many of these presses come behind another one of the same frame. -/
def pausePressesLost (fs : List Frame) : Nat := (fs.map fun f => f.pausePresses - 1).sum

theorem Frame.pausePresses_eq (f : Frame) :
    f.pausePresses = (if f.asksPause = true then 1 else 0) + (f.pausePresses - 1) := by
  have hasks : f.asksPause = true ↔ 0 < f.pausePresses := by
    rw [asksPause, pausePresses, List.any_eq_true, List.countP_pos_iff]
  by_cases h : f.asksPause = true
  · have hpos := hasks.mp h
    rw [if_pos h]
    omega
  · have hzero := mt hasks.mpr h
    rw [if_neg h]
    omega

theorem pausePresses_eq (fs : List Frame) :
    pausePresses fs = fs.countP Frame.asksPause + pausePressesLost fs := by
  induction fs with
  | nil => rfl
  | cons f fs ih =>
    have hfirst := f.pausePresses_eq
    simp only [pausePresses, pausePressesLost] at ih
    simp only [pausePresses, pausePressesLost, List.map_cons, List.sum_cons, List.countP_cons]
    omega

namespace Window

variable {σ : Type} {u w : Window σ} {dt : Float} {f : Frame} {fs : List Frame}

theorem paused_adjustAll (w : Window σ) {adjustments : List Adjustment}
    (h : ∀ paused, .pause paused ∉ adjustments) : (w.adjustAll adjustments).paused = w.paused := by
  induction adjustments generalizing w with
  | nil => rfl
  | cons a adjustments ih =>
    have hrest := ih (w.adjust a) fun paused hmem => h paused (List.mem_cons_of_mem a hmem)
    cases a with
    | resize size => exact hrest
    | pause paused => exact absurd List.mem_cons_self (h paused)

/-- The window is paused after an odd number of frames with a press, and has taken note of all. -/
structure Toggled (fs : List Frame) (w : Window σ) : Prop where
  noted : w.keyboard.pause = false
  paused_iff : w.paused = true ↔ Odd (fs.countP Frame.asksPause)

theorem Toggled.of_start {machine : Machine σ} {scale : Option Int} {title : Option String}
    {mixer : Mixer} (hw : create machine scale title mixer = .ok w) : Toggled [] w.start := by
  obtain ⟨scale, buzzer, rfl⟩ := eq_new_of_create hw
  exact ⟨rfl, by simp [start, present, new]⟩

variable [RandomSource σ]

/-- **A tick takes note of a press** by pausing or going on. -/
theorem paused_next (u : Window σ) (dt : Float) (hf : f.SparesPause)
    (hrunning : (u.next dt f).running = true) :
    (u.next dt f).keyboard.pause = false ∧
      (u.next dt f).paused = (u.paused != (u.keyboard.pause || f.asksPause)) := by
  have hpolled := u.polled f
  have hticked := ticked dt (u.adjustAll f.adjustments) f.events
  rw [next] at hrunning ⊢
  rw [Frame.asksPause, ← hpolled.pause, ← u.paused_adjustAll hf, ← hpolled.paused]
  generalize (u.adjustAll f.adjustments).tick dt f.events = w at hrunning hticked ⊢
  generalize (u.adjustAll f.adjustments).poll f.events = q at hticked ⊢
  cases hticked with
  | quit hasks => cases hrunning
  | paused hasks hpaused =>
    have hc := completed q.togglePause dt false
    exact ⟨congrArg Keyboard.pause hc.keyboard, hc.paused⟩
  | ran hasks hpaused m redraw hframe =>
    have hc := completed { q.togglePause with machine := m } dt redraw
    exact ⟨congrArg Keyboard.pause hc.keyboard, hc.paused⟩
  | faulted hasks hpaused m fault hframe => cases hrunning

theorem Toggled.next (h : Toggled fs u) (hf : f.SparesPause)
    (hrunning : (u.next dt f).running = true) : Toggled (fs ++ [f]) (u.next dt f) := by
  obtain ⟨hnoted, hpaused⟩ := u.paused_next dt hf hrunning
  refine ⟨hnoted, ?_⟩
  rw [hpaused, h.noted, Bool.false_or, List.countP_append, List.countP_singleton]
  cases f.asksPause with
  | true =>
    rw [if_pos rfl, Nat.odd_add_one, ← h.paused_iff]
    simp
  | false =>
    rw [if_neg Bool.false_ne_true, Nat.add_zero, ← h.paused_iff]
    simp

/--
**A pause is toggled once a frame.** In every session of a new window whose pause is not set from
outside, in whatever order keys are let go that are held when the focus is lost, a window that runs is
paused exactly if there has been an odd number of frames in which the pause key went down. That is
the same as an odd number of presses exactly if an even number of presses has come behind another one
of the same frame.
-/
theorem paused_iff_odd_frames {machine : Machine σ} {scale : Option Int} {title : Option String}
    {mixer : Mixer} {w₀ : Window σ} (hw₀ : create machine scale title mixer = .ok w₀) (dt : Float)
    {frames : List Frame} (hframes : ∀ f ∈ frames, f.SparesPause) {before later : List (Window σ)}
    (h : (w₀.run dt frames).trace = before ++ w :: later) (hw : w.running = true) :
    let fs := (frames ++ [Frame.closing]).take (before.length + 1)
    (w.paused = true ↔ Odd (fs.countP Frame.asksPause)) ∧
    ((w.paused = true ↔ Odd (pausePresses fs)) ↔ Even (pausePressesLost fs)) := by
  intro fs
  have hspares : ∀ f ∈ fs, f.SparesPause := by
    intro f hf
    rcases List.mem_append.mp (List.mem_of_mem_take hf) with hf | hf
    · exact hframes f hf
    · rw [List.mem_singleton.mp hf]
      exact Frame.sparesPause_of_events []
  have htoggled : (∀ f ∈ fs, f.SparesPause) → Toggled fs w := by
    refine Session.kept (P := fun gs _ v => (∀ f ∈ gs, f.SparesPause) → Toggled gs v)
      (fun _ => .of_start hw₀) ?_ h hw
    intro gs _ v f hv _ _ hrunning hgs
    have hearlier : ∀ g ∈ gs, g.SparesPause := fun g hg => hgs g (List.mem_append_left [f] hg)
    exact (hv hearlier).next (hgs f (List.mem_append_right gs List.mem_cons_self)) hrunning
  have hpaused := (htoggled hspares).paused_iff
  refine ⟨hpaused, ?_⟩
  rw [hpaused, pausePresses_eq, Nat.odd_add]
  by_cases hodd : Odd (fs.countP Frame.asksPause) <;> simp [hodd]

/-! ## Two presses in one frame -/

/-- A frame in which the pause key goes down and up twice. -/
def pressedTwice : Frame :=
  .ofEvents [.down Keyboard.pauseKey (some 19), .up Keyboard.pauseKey (some 19),
    .down Keyboard.pauseKey (some 19), .up Keyboard.pauseKey (some 19)]

/-- The window of this machine is paused behind such a frame. -/
theorem session_pressed_twice :
    ∃ (m : Machine RepeatingBytes) (w₀ w₁ w₂ : Window RepeatingBytes),
      Machine.build (.bytes [0x12, 0x00]) (.int 60) (.ofList []) = .ok m ∧
      create m (some 1) none .off = .ok w₀ ∧
      (w₀.run 0.0 [pressedTwice]).trace = [w₁, w₂] ∧ w₁.running = true ∧ w₁.paused = true := by
  let m : Machine RepeatingBytes := .new ⟨[0x12, 0x00], by decide⟩ ⟨60, by decide⟩ (.ofList [])
  let w₀ := new m 1 none .silent
  let w₁ := w₀.start.next 0.0 pressedTwice
  have hbuild := Machine.build_new ⟨[0x12, 0x00], by decide⟩ ⟨60, by decide⟩
    (RepeatingBytes.ofList [])
  have hc : Completed (w₀.start.poll pressedTwice.events).togglePause w₁ := by
    have htick : w₁ = (w₀.start.poll pressedTwice.events).togglePause.complete 0.0 false :=
      tick_of_paused rfl rfl
    rw [htick]
    exact completed _ _ _
  have hrunning : w₁.running = true := hc.running
  refine ⟨m, w₀, w₁, w₁.next 0.0 .closing, hbuild, rfl, ?_, hrunning, hc.paused⟩
  show (Session.loop 0.0 w₀.start [pressedTwice]).trace = _
  rw [Session.loop_cons rfl rfl, Session.loop_nil hrunning]

/-- Of the two presses one is lost. -/
theorem paused_iff_odd_frames_pressed_twice :
    ∃ (m : Machine RepeatingBytes) (w₀ w₁ w₂ : Window RepeatingBytes),
      (create m (some 1) none .off = .ok w₀ ∧ (∀ f ∈ [pressedTwice], f.SparesPause) ∧
        (w₀.run 0.0 [pressedTwice]).trace = [] ++ w₁ :: [w₂] ∧ w₁.running = true) ∧
      w₁.paused = true ∧ ¬ (w₁.paused = true ↔ Odd (pausePresses [pressedTwice])) := by
  obtain ⟨m, w₀, w₁, w₂, -, hcreate, htrace, hrunning, -⟩ := session_pressed_twice
  have hspares : ∀ f ∈ [pressedTwice], f.SparesPause := by
    intro f hf
    rw [List.mem_singleton.mp hf]
    exact Frame.sparesPause_of_events _
  have hcut : (w₀.run 0.0 [pressedTwice]).trace = [] ++ w₁ :: [w₂] := htrace
  obtain ⟨hpaused, hparity⟩ := paused_iff_odd_frames hcreate 0.0 hspares hcut hrunning
  refine ⟨m, w₀, w₁, w₂, ⟨hcreate, hspares, hcut, hrunning⟩, hpaused.mpr ?_, mt hparity.mp ?_⟩
  · decide
  · decide

/-- So a window may be paused after an even number of presses. -/
theorem paused_after_two_presses :
    ∃ (m : Machine RepeatingBytes) (w₀ w : Window RepeatingBytes),
      Machine.build (.bytes [0x12, 0x00]) (.int 60) (.ofList []) = .ok m ∧
      create m (some 1) none .off = .ok w₀ ∧ w ∈ (w₀.run 0.0 [pressedTwice]).trace ∧
      w.running = true ∧ w.paused = true ∧ ¬ Odd (pausePresses [pressedTwice]) := by
  obtain ⟨m, w₀, w₁, w₂, hbuild, hcreate, htrace, hrunning, hpaused⟩ := session_pressed_twice
  refine ⟨m, w₀, w₁, hbuild, hcreate, ?_, hrunning, hpaused, by decide⟩
  rw [htrace]
  exact List.mem_cons_self

end Window

end ChipEight
