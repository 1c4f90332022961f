import ChipEight.Buzzer
import Mathlib.Data.List.Destutter

/-!
# The tone follows the buzzer

Whether a buzzer plays is settled without its mixer: by the last thing that was asked of it. The
mixer is told only when that changes, and only as long as there is a tone to start and stop. So what
it is told is the course of playing with the repetitions left out, a start first, and the tone loops
just when the buzzer plays. Shutting down takes the tone away and then the mixer. After that the
buzzer goes on to keep account of its playing, but it has nobody left to tell.
-/

namespace ChipEight

/-- Whether the tone loops after a call to the mixer, if it did so before or not. -/
def MixerCall.loops (before : Bool) : MixerCall → Bool
  | .open .. | .sound .. => before
  | .play loops => decide (loops < 0)
  | .stop | .quit => false

/-- What may be asked of a buzzer. -/
inductive BuzzerCall where
  | update (muted active : Bool)
  | shutdown
  deriving DecidableEq, Repr

/-- Whether the buzzer is to play from then on. -/
def BuzzerCall.sounds : BuzzerCall → Bool
  | .update muted active => active && !muted
  | .shutdown => false

namespace Buzzer

def perform (b : Buzzer) : BuzzerCall → Buzzer × List MixerCall
  | .update muted active => b.update muted active
  | .shutdown => b.shutdown

/-- The buzzer behind some calls. -/
def after (b : Buzzer) (cs : List BuzzerCall) : Buzzer := cs.foldl (fun b c => (b.perform c).1) b

/-- What the mixer is told in the course of some calls, in this order. -/
def told (b : Buzzer) : List BuzzerCall → List MixerCall
  | [] => []
  | c :: cs => (b.perform c).2 ++ (b.perform c).1.told cs

/-- The call that starts the tone or stops it. -/
def turn (on : Bool) : MixerCall := if on then .play (-1) else .stop

variable {b : Buzzer} {c : BuzzerCall} {cs : List BuzzerCall}

theorem after_append (b : Buzzer) (cs ds : List BuzzerCall) :
    b.after (cs ++ ds) = (b.after cs).after ds := List.foldl_append

/-! ## Playing -/

theorem update_of_eq {muted active : Bool} (h : (active && !muted) = b.playing) :
    b.update muted active = (b, []) := if_pos h

theorem update_of_ne {muted active : Bool} (h : (active && !muted) ≠ b.playing) :
    b.update muted active =
      ({ b with playing := active && !muted },
        if b.enabled && b.tone then [turn (active && !muted)] else []) := if_neg h

theorem playing_perform (b : Buzzer) (c : BuzzerCall) : (b.perform c).1.playing = c.sounds := by
  cases c with
  | shutdown => rfl
  | update muted active => exact b.playing_update muted active

/-! ## A buzzer that has nobody to tell -/

/-- There is neither a tone nor an open mixer. -/
structure Mute (b : Buzzer) : Prop where
  tone : b.tone = false
  mixerOpen : b.mixerOpen = false

theorem Mute.perform (h : b.Mute) (c : BuzzerCall) :
    (b.perform c).2 = [] ∧ (b.perform c).1.Mute := by
  cases c with
  | shutdown =>
    rw [Buzzer.perform, shutdown, h.tone, h.mixerOpen]
    exact ⟨rfl, rfl, rfl⟩
  | update muted active =>
    rw [Buzzer.perform]
    by_cases hsame : (active && !muted) = b.playing
    · rw [update_of_eq hsame]
      exact ⟨rfl, h⟩
    · rw [update_of_ne hsame]
      refine ⟨?_, h.tone, h.mixerOpen⟩
      rw [h.tone, Bool.and_false]
      rfl

theorem Mute.after (h : b.Mute) (cs : List BuzzerCall) : (b.after cs).Mute := by
  induction cs generalizing b with
  | nil => exact h
  | cons c cs ih => exact ih (h.perform c).2

theorem Mute.told (h : b.Mute) (cs : List BuzzerCall) : b.told cs = [] := by
  induction cs generalizing b with
  | nil => rfl
  | cons c cs ih =>
    obtain ⟨hnone, hmute⟩ := h.perform c
    rw [Buzzer.told, hnone, ih hmute]
    rfl

theorem mute_shutdown (b : Buzzer) : b.shutdown.1.Mute := ⟨rfl, rfl⟩

theorem mute_after (b : Buzzer) (h : .shutdown ∈ cs) : (b.after cs).Mute := by
  obtain ⟨early, late, rfl⟩ := List.append_of_mem h
  rw [after_append]
  exact (mute_shutdown _).after late

/-! ## A buzzer with a tone -/

/-- A buzzer with a tone, which has been turned on or off. -/
def tuned (playing : Bool) : Buzzer := { ready with playing := playing }

/-- Asked to play or not to, a buzzer with a tone turns it on or off, if it is not so already. -/
theorem perform_tuned (playing : Bool) (hc : .shutdown ≠ c) :
    (tuned playing).perform c =
      (tuned c.sounds, if c.sounds = playing then [] else [turn c.sounds]) := by
  cases c with
  | shutdown => exact absurd rfl hc
  | update muted active =>
    rw [perform, BuzzerCall.sounds]
    by_cases h : (active && !muted) = playing
    · rw [update_of_eq h, if_pos h, h]
    · rw [update_of_ne h, if_neg h]
      rfl

theorem after_tuned_cons (playing : Bool) (hc : .shutdown ≠ c) :
    (tuned playing).after (c :: cs) = (tuned c.sounds).after cs := by
  rw [after, List.foldl_cons, perform_tuned playing hc]
  rfl

theorem told_tuned_cons (playing : Bool) (hc : .shutdown ≠ c) :
    (tuned playing).told (c :: cs) =
      (if c.sounds = playing then [] else [turn c.sounds]) ++ (tuned c.sounds).told cs := by
  rw [told, perform_tuned playing hc]

/-- What a buzzer with a tone is asked up to the first shutdown only turns the tone on and off. -/
theorem after_tuned (playing : Bool) (h : .shutdown ∉ cs) :
    ∃ now, (tuned playing).after cs = tuned now := by
  induction cs generalizing playing with
  | nil => exact ⟨playing, rfl⟩
  | cons c cs ih =>
    rw [after_tuned_cons playing (List.ne_of_not_mem_cons h)]
    exact ih c.sounds (List.not_mem_of_not_mem_cons h)

/-- **What a mixer with a tone is told** is the course of playing without the repetitions. -/
theorem told_tuned (playing : Bool) (h : .shutdown ∉ cs) :
    ∃ turns, (tuned playing).told cs = turns.map turn ∧
      playing :: turns = (cs.map BuzzerCall.sounds).destutter' (· ≠ ·) playing := by
  induction cs generalizing playing with
  | nil => exact ⟨[], rfl, rfl⟩
  | cons c cs ih =>
    obtain ⟨turns, htold, hturns⟩ := ih c.sounds (List.not_mem_of_not_mem_cons h)
    rw [told_tuned_cons playing (List.ne_of_not_mem_cons h), htold, List.map_cons]
    by_cases hsame : c.sounds = playing
    · refine ⟨turns, by rw [if_pos hsame, List.nil_append], ?_⟩
      rw [List.destutter'_cons_neg _ (not_not.mpr hsame.symm), ← hsame, hturns]
    · refine ⟨c.sounds :: turns, by rw [if_neg hsame, List.map_cons, List.singleton_append], ?_⟩
      rw [List.destutter'_cons_pos _ (Ne.symm hsame), hturns]

/-- To turn the tone on is to let it loop, to turn it off to end that. So the tone loops exactly as
long as the buzzer plays. -/
theorem loops_told (playing : Bool) (h : .shutdown ∉ cs) :
    ((tuned playing).told cs).foldl MixerCall.loops playing =
      ((tuned playing).after cs).playing := by
  induction cs generalizing playing with
  | nil => rfl
  | cons c cs ih =>
    have hc := List.ne_of_not_mem_cons h
    have hfirst : (if c.sounds = playing then [] else [turn c.sounds]).foldl MixerCall.loops
        playing = c.sounds := by
      by_cases hsame : c.sounds = playing
      · rw [if_pos hsame]
        exact hsame.symm
      · rw [if_neg hsame]
        cases c.sounds <;> rfl
    rw [told_tuned_cons playing hc, after_tuned_cons playing hc, List.foldl_append, hfirst]
    exact ih c.sounds (List.not_mem_of_not_mem_cons h)

/-! ## Every buzzer -/

theorem new_eq_ok {mixer : Mixer} {opening : List MixerCall} (h : new mixer = .ok (b, opening)) :
    ((∃ format room, mixer = .opens format room) ∧ b = tuned false ∨
      (∀ format room, mixer ≠ .opens format room) ∧ b = silent) ∧
    (∀ loops, .play loops ∉ opening) ∧ .stop ∉ opening ∧ .quit ∉ opening := by
  cases mixer with
  | off =>
    cases h
    exact ⟨.inr ⟨nofun, rfl⟩, by simp⟩
  | fails reason =>
    cases h
    exact ⟨.inr ⟨nofun, rfl⟩, by simp⟩
  | opens format room =>
    cases htone : format.tone room with
    | error e =>
      rw [new, htone] at h
      cases h
    | ok wave =>
      rw [new, htone] at h
      cases h
      exact ⟨.inl ⟨⟨format, room, rfl⟩, rfl⟩, by simp⟩

/--
**The tone follows the buzzer.** Whatever becomes of the mixer, a new buzzer plays after an update
if the sound timer runs and nothing mutes it, and it does not play after a shutdown.

If the mixer opens, then up to the first shutdown an update makes one call if it changes whether the
buzzer plays, to start the tone or to stop it, and else none. So the tone is started and stopped by
turns, a start first, once for each change, and it loops exactly as long as the buzzer plays. The
first shutdown stops the tone and quits the mixer, and no call comes after it. A mixer that does not
open is never called again.
-/
theorem tone_follows_playing {mixer : Mixer} {opening : List MixerCall}
    (hb : new mixer = .ok (b, opening)) :
    b.playing = false ∧ (∀ cs c, (b.after (cs ++ [c])).playing = c.sounds) ∧
    ((∀ loops, .play loops ∉ opening) ∧ .stop ∉ opening ∧ .quit ∉ opening) ∧
    (∀ format room, mixer = .opens format room → ∀ cs,
      (.shutdown ∉ cs →
        (∀ muted active, ((b.after cs).update muted active).2 =
          if (active && !muted) = (b.after cs).playing then [] else [turn (active && !muted)]) ∧
        (∃ turns, b.told cs = turns.map turn ∧ (false :: turns).IsChain (· ≠ ·) ∧
          false :: turns = (cs.map BuzzerCall.sounds).destutter' (· ≠ ·) false) ∧
        (b.told cs).foldl MixerCall.loops false = (b.after cs).playing ∧
        (b.after cs).shutdown.2 = [.stop, .quit]) ∧
      (.shutdown ∈ cs → ∀ c, ((b.after cs).perform c).2 = [])) ∧
    ((∀ format room, mixer ≠ .opens format room) → ∀ cs, b.told cs = []) := by
  obtain ⟨hmixer, hopening⟩ := new_eq_ok hb
  have hnew : b.playing = false := by
    rcases hmixer with ⟨-, rfl⟩ | ⟨-, rfl⟩ <;> rfl
  refine ⟨hnew, fun cs c => ?_, hopening,
    fun format room hopens cs => ⟨fun hcs => ?_, fun hcs c => ?_⟩, fun hclosed cs => ?_⟩
  · rw [after_append]
    exact (b.after cs).playing_perform c
  · obtain rfl : b = tuned false := by
      rcases hmixer with ⟨-, rfl⟩ | ⟨hclosed, -⟩
      · rfl
      · exact absurd hopens (hclosed format room)
    obtain ⟨turns, htold, hturns⟩ := told_tuned false hcs
    obtain ⟨now, hafter⟩ := after_tuned false hcs
    refine ⟨fun muted active => ?_, ⟨turns, htold, ?_, hturns⟩, loops_told false hcs, ?_⟩
    · have hupdate : (tuned now).perform (.update muted active) = _ :=
        perform_tuned now BuzzerCall.noConfusion
      rw [hafter]
      exact congrArg Prod.snd hupdate
    · rw [hturns]
      exact List.isChain_destutter' _ _ _
    · rw [hafter]
      rfl
  · exact ((mute_after b hcs).perform c).1
  · rcases hmixer with ⟨⟨format, room, hopens⟩, -⟩ | ⟨-, rfl⟩
    · exact absurd hopens (hclosed format room)
    · exact Mute.told ⟨rfl, rfl⟩ cs

/-- In the format that is asked for, and with a mebibyte of memory, there is a tone. It starts, is
muted and starts again; what the buzzer is asked in between or behind a shutdown is not told to the
mixer. -/
theorem tone_follows_playing_muted :
    let room : Room := ⟨0x100000, 0x100000⟩
    ∃ opening, new (.opens requested room) = .ok (ready, opening) ∧
      let cs := [.update false false, .update false true, .update false true, .update true true,
        .update false true]
      .shutdown ∉ cs ∧ ready.told cs = [.play (-1), .stop, .play (-1)] ∧
      (ready.after cs).shutdown.2 = [.stop, .quit] ∧
      .shutdown ∈ cs ++ [.shutdown] ∧
      ((ready.after (cs ++ [.shutdown])).perform (.update false true)).2 = [] := by
  intro room
  have htone : (requested.tone room).toOption.isSome = true := by decide +kernel
  obtain ⟨opening, hnew⟩ : ∃ opening, new (.opens requested room) = .ok (ready, opening) := by
    cases hwave : requested.tone room with
    | error e =>
      rw [hwave] at htone
      cases htone
    | ok wave =>
      rw [new, hwave]
      exact ⟨_, rfl⟩
  refine ⟨opening, hnew, ?_⟩
  intro cs
  obtain ⟨-, -, -, hopened, -⟩ := tone_follows_playing hnew
  obtain ⟨hbefore, -⟩ := hopened requested room rfl cs
  obtain ⟨-, hbehind⟩ := hopened requested room rfl (cs ++ [.shutdown])
  have hcs : .shutdown ∉ cs := by decide
  have hshut : .shutdown ∈ cs ++ [.shutdown] := List.mem_append_right cs List.mem_cons_self
  obtain ⟨-, ⟨turns, htold, -, hturns⟩, -, hclosing⟩ := hbefore hcs
  have hcourse : (cs.map BuzzerCall.sounds).destutter' (· ≠ ·) false =
      [false, true, false, true] := by
    decide
  obtain ⟨-, rfl⟩ := List.cons.inj (hturns.trans hcourse)
  exact ⟨hcs, htold, hclosing, hshut, hbehind hshut _⟩

end Buzzer

end ChipEight
