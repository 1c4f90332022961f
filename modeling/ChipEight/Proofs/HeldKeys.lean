import ChipEight.Keyboard
import ChipEight.Proofs.KeyRelease
import Mathlib.Data.List.Count
import Mathlib.Data.List.Nodup

/-!
# The keypad never sticks

Which keys are held is known twice: the keyboard keeps its own account of it, and the machine has
its keypad. They are moved by different hands, and stay equal all the same (`InTouch`), because
whatever the keyboard enters in its account it also tells the machine, and because nothing that a
machine does by itself moves a key. A key that goes up without having gone down is told to the
machine as well, which has it up already.
-/

namespace ChipEight

/-- The calls that move no key: those that let a machine run, and those that reach its memory. -/
def HostCall.sparesKeys : HostCall → Bool
  | .press _ | .release _ | .reset => false
  | _ => true

namespace Keyboard

variable {k : Keyboard}

theorem isHeld_idle (b : Fin 16) : idle.isHeld b = false := by
  show (Vector.replicate 16 false)[b.val] = false
  exact Vector.getElem_replicate _

theorem mem_heldKeys {order : KeyOrder} {b : Fin 16} :
    b ∈ k.heldKeys order ↔ k.isHeld b = true := by
  rw [heldKeys, List.mem_filter]
  exact and_iff_right (order.complete b)

/-- **The held keys may be let go in any order**: every list of them, each once, is the list of the
held keys in some order of all keys. -/
theorem exists_heldKeys_eq {bs : List (Fin 16)} (hnodup : bs.Nodup)
    (hheld : ∀ b, b ∈ bs ↔ k.isHeld b = true) : ∃ order, k.heldKeys order = bs := by
  let others := (List.finRange 16).filter fun b => !k.isHeld b
  have hothers : ∀ b, b ∈ others ↔ k.isHeld b = false := by
    simp [others]
  have hdisjoint : ∀ b ∈ bs, b ∉ others := by
    intro b hb hother
    cases ((hheld b).mp hb).symm.trans ((hothers b).mp hother)
  have hkeys : (bs ++ others).Nodup := by
    refine List.nodup_append.mpr ⟨hnodup, (List.nodup_finRange 16).filter _, ?_⟩
    rintro b hb _ hother rfl
    exact hdisjoint b hb hother
  refine ⟨⟨bs ++ others, hkeys, fun b => ?_⟩, ?_⟩
  · cases hb : k.isHeld b with
    | true => exact List.mem_append_left others ((hheld b).mpr hb)
    | false => exact List.mem_append_right bs ((hothers b).mpr hb)
  · have hfirst : bs.filter k.isHeld = bs := List.filter_eq_self.mpr fun b hb => (hheld b).mp hb
    have hlater : others.filter k.isHeld = [] :=
      List.filter_eq_nil_iff.mpr fun b hb => Bool.eq_false_iff.mp ((hothers b).mp hb)
    rw [heldKeys, List.filter_append, hfirst, hlater, List.append_nil]

/-- Each held key is let go once. -/
theorem count_releaseAll (order : KeyOrder) (b : Fin 16) :
    (k.releaseAll order).2.count (.release b) = if k.isHeld b = true then 1 else 0 := by
  have hinj : Function.Injective KeyCall.release := fun _ _ h => KeyCall.release.inj h
  rw [releaseAll, List.count_map_of_injective _ _ hinj]
  by_cases hb : k.isHeld b = true
  · rw [if_pos hb]
    exact List.count_eq_one_of_mem (order.nodup.filter _) (mem_heldKeys.mpr hb)
  · rw [if_neg hb]
    exact List.count_eq_zero_of_not_mem (mt mem_heldKeys.mp hb)

theorem press_not_mem_releaseAll (order : KeyOrder) (b : Fin 16) :
    .press b ∉ (k.releaseAll order).2 := by
  intro h
  obtain ⟨b', -, hb'⟩ := List.mem_map.mp h
  cases hb'

/-- A bound key is held once it has gone down, unless it stands for something else. -/
theorem isHeld_handle_down {key : Int} {scancode : Option Int} {b : Fin 16}
    (hb : bound scancode = some b) (hescape : key ≠ escapeKey) (hpause : key ≠ pauseKey) :
    (k.handle (.down key scancode)).1.isHeld b = true := by
  rw [handle, if_neg hescape, if_neg hpause, hb]
  dsimp only
  cases hheld : k.isHeld b with
  | true => exact hheld
  | false => exact (Keypad.get_setKey k.held b b true).trans (if_pos rfl)

theorem isHeld_handle_up {key : Int} {scancode : Option Int} {b : Fin 16}
    (hb : bound scancode = some b) : (k.handle (.up key scancode)).1.isHeld b = false := by
  rw [handle, hb]
  exact (Keypad.get_setKey k.held b b false).trans (if_pos rfl)

theorem handle_escape (scancode : Option Int) :
    k.handle (.down escapeKey scancode) = ({ k with quit := true }, []) := by
  rw [handle, if_pos rfl]

theorem handle_pause (scancode : Option Int) :
    k.handle (.down pauseKey scancode) = ({ k with pause := true }, []) := by
  rw [handle, if_neg (by decide), if_pos rfl]

theorem calls_of_unbound {scancode : Option Int} (h : bound scancode = none) (key : Int) :
    (k.handle (.down key scancode)).2 = [] ∧ (k.handle (.up key scancode)).2 = [] := by
  rw [handle, handle, h]
  refine ⟨?_, rfl⟩
  split
  · rfl
  · split <;> rfl

/-- **Everything that an event can do** to the held keys, with the calls that go with it. -/
theorem handle_cases (k : Keyboard) (e : Event) :
    (∃ quit pause, k.handle e = ({ k with quit := quit, pause := pause }, [])) ∨
    (∃ b, k.isHeld b = false ∧
      k.handle e = ({ k with held := Keypad.setKey k.held b true }, [.press b])) ∨
    (∃ key scancode b, e = .up key scancode ∧ bound scancode = some b ∧
      k.handle e = ({ k with held := Keypad.setKey k.held b false }, [.release b])) ∨
    ∃ order, e = .focusLost order ∧ k.handle e = k.releaseAll order := by
  cases e with
  | quit => exact .inl ⟨true, k.pause, rfl⟩
  | focusGained => exact .inl ⟨k.quit, k.pause, rfl⟩
  | focusLost order => exact .inr (.inr (.inr ⟨order, rfl, rfl⟩))
  | down key scancode =>
    rw [handle]
    by_cases hescape : key = escapeKey
    · rw [if_pos hescape]
      exact .inl ⟨true, k.pause, rfl⟩
    · rw [if_neg hescape]
      by_cases hpause : key = pauseKey
      · rw [if_pos hpause]
        exact .inl ⟨k.quit, true, rfl⟩
      · rw [if_neg hpause]
        cases bound scancode with
        | none => exact .inl ⟨k.quit, k.pause, rfl⟩
        | some b =>
          dsimp only
          cases hb : k.isHeld b with
          | true => exact .inl ⟨k.quit, k.pause, rfl⟩
          | false => exact .inr (.inl ⟨b, hb, rfl⟩)
  | up key scancode =>
    rw [handle]
    cases hbound : bound scancode with
    | none => exact .inl ⟨k.quit, k.pause, rfl⟩
    | some b => exact .inr (.inr (.inl ⟨key, scancode, b, rfl, hbound, rfl⟩))

end Keyboard

namespace Machine

variable {σ : Type}

/-- Of keys released one after the other none is down in the end, and no other has moved. -/
theorem isDown_releases (m : Machine σ) (bs : List (Fin 16)) (b : Fin 16) :
    (m.obeyAll (bs.map .release)).keypad.isDown b = true ↔
      m.keypad.isDown b = true ∧ b ∉ bs := by
  induction bs generalizing m with
  | nil => exact (and_iff_left List.not_mem_nil).symm
  | cons b' bs ih =>
    have hfirst : (m.obey (.release b')).keypad.isDown b = _ := m.keypad.isDown_releaseKey b' b
    have hrest := ih (m.obey (.release b'))
    rw [hfirst] at hrest
    refine hrest.trans ?_
    by_cases hb : b = b'
    · simp [hb]
    · simp [hb]

variable [RandomSource σ]

theorem keys_step (m : Machine σ) : m.step.1.keypad.keys = m.keypad.keys := by
  cases hm : m.fault with
  | some f => rw [step_of_fault hm]
  | none =>
    rw [step_keypad hm]
    rfl

theorem keys_perform (m : Machine σ) {c : HostCall} (hc : c.sparesKeys = true) :
    (m.perform c).1.keypad.keys = m.keypad.keys := by
  cases c with
  | step => exact m.keys_step
  | frame fps =>
    show (m.runFrame fps).1.keypad.keys = _
    rw [runFrame]
    split
    · rfl
    · exact runSteps_kept (P := fun n => n.keypad.keys = m.keypad.keys)
        (fun n hn => n.keys_step.trans hn) _ _ rfl
  | load addr data => rw [m.perform_of_not_runs rfl HostCall.noConfusion]; rfl
  | poke addr value => rw [m.perform_of_not_runs rfl HostCall.noConfusion]; rfl
  | press key | release key | reset => cases hc

end Machine

/-! ## A keyboard and its machine -/

/-- A machine together with the keyboard that moves its keys. -/
structure Console (σ : Type) where
  keyboard : Keyboard
  machine : Machine σ

namespace Console

variable {σ : Type}

/-- A keyboard that has just been connected. -/
def new (m : Machine σ) : Console σ := ⟨.idle, m⟩

/-- The keyboard takes in an event, and the machine obeys. -/
def handle (c : Console σ) (e : Event) : Console σ :=
  ⟨(c.keyboard.handle e).1, c.machine.obeyAll (c.keyboard.handle e).2⟩

/-- What happens to a console: an event, or a call of the host. -/
inductive Move where
  | event (e : Event)
  | call (d : HostCall)

def make [RandomSource σ] (c : Console σ) : Move → Console σ
  | .event e => c.handle e
  | .call d => { c with machine := (c.machine.perform d).1 }

def after [RandomSource σ] (c : Console σ) (moves : List Move) : Console σ := moves.foldl make c

/-- The keys that are down are those that are held. -/
def InTouch (c : Console σ) : Prop := ∀ b, c.machine.keypad.isDown b = c.keyboard.isHeld b

variable {c : Console σ}

/-- **An event leaves both accounts equal.** -/
theorem InTouch.handle (h : InTouch c) (e : Event) : InTouch (c.handle e) := by
  intro b
  rcases c.keyboard.handle_cases e with ⟨quit, pause, he⟩ | ⟨b', -, he⟩ | ⟨-, -, b', -, -, he⟩ |
    ⟨order, -, he⟩
  · rw [Console.handle, he]
    exact h b
  · rw [Console.handle, he]
    refine (c.machine.keypad.isDown_pressKey b' b).trans ?_
    refine Eq.trans ?_ (Keypad.get_setKey c.keyboard.held b' b true).symm
    rw [h b]
    rfl
  · rw [Console.handle, he]
    refine (c.machine.keypad.isDown_releaseKey b' b).trans ?_
    refine Eq.trans ?_ (Keypad.get_setKey c.keyboard.held b' b false).symm
    rw [h b]
    rfl
  · rw [Console.handle, he]
    refine Eq.trans ?_ (Keyboard.isHeld_idle b).symm
    refine Bool.eq_false_iff.mpr fun hdown => ?_
    -- a key that is not among the released ones was up before
    obtain ⟨hbefore, hb⟩ := (c.machine.isDown_releases (c.keyboard.heldKeys order) b).mp hdown
    rw [h b] at hbefore
    exact hb (Keyboard.mem_heldKeys.mpr hbefore)

/-- A key is pressed only when it is up. -/
theorem InTouch.press (h : InTouch c) {e : Event} {before later : List KeyCall} {b : Fin 16}
    (hcalls : (c.keyboard.handle e).2 = before ++ .press b :: later) :
    (c.machine.obeyAll before).keypad.isDown b = false := by
  have hmem : .press b ∈ (c.keyboard.handle e).2 :=
    hcalls ▸ List.mem_append_right before List.mem_cons_self
  rcases c.keyboard.handle_cases e with ⟨quit, pause, he⟩ | ⟨b', hb', he⟩ |
    ⟨-, -, b', -, -, he⟩ | ⟨order, -, he⟩
  · rw [he] at hmem
    cases hmem
  · -- the press is the only call
    rw [he] at hcalls
    cases before with
    | nil =>
      cases hcalls
      exact (h b).trans hb'
    | cons d before => cases before <;> cases hcalls
  · rw [he] at hmem
    cases List.mem_singleton.mp hmem
  · rw [he] at hmem
    exact absurd hmem (Keyboard.press_not_mem_releaseAll order b)

variable [RandomSource σ]

theorem InTouch.call (h : InTouch c) {d : HostCall} (hd : d.sparesKeys = true) :
    InTouch (c.make (.call d)) := by
  intro b
  have hkeys := c.machine.keys_perform hd
  exact (congrArg (fun keys : Vector Bool 16 => keys.get b) hkeys).trans (h b)

theorem InTouch.after (h : InTouch c) {moves : List Move}
    (hmoves : ∀ d, .call d ∈ moves → d.sparesKeys = true) : InTouch (c.after moves) := by
  induction moves generalizing c with
  | nil => exact h
  | cons move moves ih =>
    have hlater : ∀ d, .call d ∈ moves → d.sparesKeys = true :=
      fun d hd => hmoves d (List.mem_cons_of_mem _ hd)
    cases move with
    | event e => exact ih (h.handle e) hlater
    | call d => exact ih (h.call (hmoves d List.mem_cons_self)) hlater

/--
**The keypad follows the keyboard.** Connected to a machine whose keys are all up, the keyboard has
in its account, after any events and any calls that spare the keys, exactly the keys that are down,
and that is why it presses only keys that are up. A bound key is down when it has gone down and up
when it has gone up, unless it stands for the end or a pause. When the focus is lost, then in
whatever order the keys are let go each key that is down is released once, none is pressed, and all
are up; any order in which the keys that are down come once each is possible. Escape, the pause key
and keys at places that are unknown or not bound are not told to the machine.
-/
theorem keypad_follows_keyboard (m : Machine σ) (hm : ∀ b, m.keypad.isDown b = false)
    (moves : List Move) (hmoves : ∀ d, .call d ∈ moves → d.sparesKeys = true) :
    let c := (new m).after moves
    (∀ b, c.machine.keypad.isDown b = c.keyboard.isHeld b) ∧
    (∀ e before b later, (c.keyboard.handle e).2 = before ++ .press b :: later →
      (c.machine.obeyAll before).keypad.isDown b = false) ∧
    (∀ scancode b, Keyboard.bound scancode = some b → ∀ key,
      (key ≠ Keyboard.escapeKey → key ≠ Keyboard.pauseKey →
        (c.handle (.down key scancode)).machine.keypad.isDown b = true) ∧
      (c.handle (.up key scancode)).machine.keypad.isDown b = false) ∧
    (∀ order b, (c.keyboard.handle (.focusLost order)).2.count (.release b) =
        (if c.machine.keypad.isDown b = true then 1 else 0) ∧
      .press b ∉ (c.keyboard.handle (.focusLost order)).2 ∧
      (c.handle (.focusLost order)).machine.keypad.isDown b = false) ∧
    (∀ bs : List (Fin 16), bs.Nodup → (∀ b, b ∈ bs ↔ c.machine.keypad.isDown b = true) →
      ∃ order, (c.keyboard.handle (.focusLost order)).2 = bs.map .release) ∧
    (∀ scancode, (c.keyboard.handle (.down Keyboard.escapeKey scancode)).2 = [] ∧
      (c.keyboard.handle (.down Keyboard.pauseKey scancode)).2 = []) ∧
    ∀ scancode, Keyboard.bound scancode = none → ∀ key,
      (c.keyboard.handle (.down key scancode)).2 = [] ∧
      (c.keyboard.handle (.up key scancode)).2 = [] := by
  have hstart : InTouch (new m) := fun b => (hm b).trans (Keyboard.isHeld_idle b).symm
  intro c
  have h : InTouch c := hstart.after hmoves
  refine ⟨h, fun e before b later => h.press, fun scancode b hb key => ?_, fun order b => ?_,
    fun bs hnodup hdown => ?_, fun scancode => ?_,
    fun scancode hnone key => Keyboard.calls_of_unbound hnone key⟩
  · refine ⟨fun hescape hpause => ?_, ?_⟩
    · exact (h.handle _ b).trans (Keyboard.isHeld_handle_down hb hescape hpause)
    · exact (h.handle _ b).trans (Keyboard.isHeld_handle_up hb)
  · refine ⟨?_, Keyboard.press_not_mem_releaseAll order b, ?_⟩
    · rw [h b]
      exact Keyboard.count_releaseAll order b
    · exact (h.handle (.focusLost order) b).trans (Keyboard.isHeld_idle b)
  · have hheld : ∀ b, b ∈ bs ↔ c.keyboard.isHeld b = true := fun b => h b ▸ hdown b
    obtain ⟨order, horder⟩ := Keyboard.exists_heldKeys_eq hnodup hheld
    exact ⟨order, congrArg (List.map KeyCall.release) horder⟩
  · rw [Keyboard.handle_escape, Keyboard.handle_pause]
    exact ⟨rfl, rfl⟩

/-- Two keys go down and the window loses the focus while the machine stops on its first word: in
whichever order, both are let go, each once, and the greater one may be the first. -/
theorem keypad_follows_keyboard_out_of_focus :
    let m := Machine.holding ⟨[0x00, 0x00], by decide⟩
    let moves := [Move.event (.up 0 (some 6)), .event (.down 119 (some 26)), .call (.frame 60),
      .event (.down 113 (some 20)), .event (.down 119 (some 26)), .call .step]
    let c := (new m).after moves
    ((∀ b, m.keypad.isDown b = false) ∧ ∀ d, .call d ∈ moves → d.sparesKeys = true) ∧
      (c.machine.keypad.isDown 5 = true ∧ c.machine.keypad.isDown 4 = true) ∧
      (∀ order, (c.keyboard.handle (.focusLost order)).2.count (.release 5) = 1 ∧
        (c.keyboard.handle (.focusLost order)).2.count (.release 11) = 0 ∧
        (c.handle (.focusLost order)).machine.keypad.isDown 5 = false) ∧
      ∃ order, (c.keyboard.handle (.focusLost order)).2 = [.release 5, .release 4] := by
  intro m moves c
  have hm : ∀ b, m.keypad.isDown b = false := Keyboard.isHeld_idle
  have hmoves : ∀ d, .call d ∈ moves → d.sparesKeys = true := by
    intro d hd
    simp only [moves, List.mem_cons, Move.call.injEq, reduceCtorEq, false_or, List.not_mem_nil,
      or_false] at hd
    rcases hd with rfl | rfl <;> rfl
  obtain ⟨hheld, -, -, hlost, horders, -, -⟩ := keypad_follows_keyboard m hm moves hmoves
  have hkeys : (∀ b, c.keyboard.isHeld b = true ↔ b = 5 ∨ b = 4) := by
    decide +kernel
  have hdown : ∀ b, c.machine.keypad.isDown b = true ↔ b = 5 ∨ b = 4 := fun b =>
    hheld b ▸ hkeys b
  have hfive : c.machine.keypad.isDown 5 = true := (hdown 5).mpr (.inl rfl)
  have heleven : ¬ c.machine.keypad.isDown 11 = true := mt (hdown 11).mp (by decide)
  refine ⟨⟨hm, hmoves⟩, ⟨hfive, (hdown 4).mpr (.inr rfl)⟩, fun order => ?_, ?_⟩
  · obtain ⟨hcount, -, hup⟩ := hlost order 5
    obtain ⟨hcount', -, -⟩ := hlost order 11
    rw [if_pos hfive] at hcount
    rw [if_neg heleven] at hcount'
    exact ⟨hcount, hcount', hup⟩
  · refine horders [5, 4] (by decide) fun b => ?_
    rw [hdown b]
    simp

end Console

end ChipEight
