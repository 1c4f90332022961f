import ChipEight.Proofs.HeldKeys
import Mathlib.Data.List.Chain

/-!
# Releases that no press has gone before

A keyboard presses a key of the keypad only when it does not hold it, and when the focus is lost it
lets go of the keys that it holds and of no others. It does not take the same care of a key that
goes up: the keypad is told in any case. So the calls for a key come by turns, a press first, up to
the first time that the key goes up without being held. This happens to a key that has been let go
when the focus was lost, and to one that went down under the meaning of the end or of a pause, which
does not go by its place.

The account is kept for one key at a time and from any keyboard on (`chain_strokes_iff`). It comes
down to what a single event does to the key (`Stroked`).
-/

namespace ChipEight

/-- Whether a call moves the key `b`, and if it does, whether down. -/
def KeyCall.stroke? (b : Fin 16) : KeyCall → Option Bool
  | .press b' => if b' = b then some true else none
  | .release b' => if b' = b then some false else none

/-- How some calls move the key `b`, down or up. -/
def strokes (b : Fin 16) (calls : List KeyCall) : List Bool := calls.filterMap (KeyCall.stroke? b)

section

variable {b : Fin 16} {calls : List KeyCall}

theorem strokes_append (b : Fin 16) (calls later : List KeyCall) :
    strokes b (calls ++ later) = strokes b calls ++ strokes b later := List.filterMap_append

theorem mem_strokes_of_press (h : .press b ∈ calls) : true ∈ strokes b calls :=
  List.mem_filterMap.mpr ⟨.press b, h, if_pos rfl⟩

theorem mem_strokes_of_release (h : .release b ∈ calls) : false ∈ strokes b calls :=
  List.mem_filterMap.mpr ⟨.release b, h, if_pos rfl⟩

theorem strokes_releases (b : Fin 16) (bs : List (Fin 16)) :
    strokes b (bs.map .release) =
      List.replicate ((bs.map KeyCall.release).count (.release b)) false := by
  induction bs with
  | nil => rfl
  | cons b' bs ih =>
    rw [List.map_cons, List.count_cons]
    by_cases h : b' = b
    · rw [h, if_pos BEq.rfl, List.replicate_succ, ← ih]
      exact List.filterMap_cons_some (if_pos rfl)
    · have hne : ¬ (KeyCall.release b' == .release b) = true := by simpa using h
      rw [if_neg hne, Nat.add_zero, ← ih]
      exact List.filterMap_cons_none (if_neg h)

end

namespace Keyboard

variable {k : Keyboard} {b : Fin 16} {e : Event} {es : List Event}

/-- The keyboard behind some events. -/
def after (k : Keyboard) (es : List Event) : Keyboard := es.foldl (fun k e => (k.handle e).1) k

/-- The calls that come of some events, in their order. -/
def calls (k : Keyboard) : List Event → List KeyCall
  | [] => []
  | e :: es => (k.handle e).2 ++ (k.handle e).1.calls es

/-- The key `b` goes up without being held. -/
def Strays (k : Keyboard) (b : Fin 16) (e : Event) : Prop :=
  k.isHeld b = false ∧ ∃ key scancode, e = .up key scancode ∧ bound scancode = some b

/-- It does so in the course of some events. -/
def StraysIn (k : Keyboard) (b : Fin 16) (es : List Event) : Prop :=
  ∃ before e later, es = before ++ e :: later ∧ (k.after before).Strays b e

/-! ## A single event -/

theorem strokes_releaseAll (k : Keyboard) (order : KeyOrder) (b : Fin 16) :
    strokes b (k.releaseAll order).2 = if k.isHeld b = true then [false] else [] := by
  have hcount := k.count_releaseAll order b
  rw [releaseAll] at hcount ⊢
  rw [strokes_releases, hcount]
  split <;> rfl

/-- What goes up without being held is released once more, and nothing else becomes of it. -/
theorem Strays.handle (h : k.Strays b e) : k.handle e = (k, [.release b]) := by
  obtain ⟨hheld, key, scancode, rfl, hbound⟩ := h
  have hsame : Keypad.setKey k.held b false = k.held := by
    rw [← hheld]
    exact Vector.set_getElem_self _
  rw [Keyboard.handle, hbound]
  dsimp only
  rw [hsame]

theorem Strays.strokes (h : k.Strays b e) : strokes b (k.handle e).2 = [false] := by
  rw [h.handle]
  exact List.filterMap_cons_some (if_pos rfl)

/-- **What an event does to a key**, by what it tells the keypad. -/
inductive Stroked (k : Keyboard) (b : Fin 16) (e : Event) : Prop
  | rests (hcalls : strokes b (k.handle e).2 = []) (hheld : (k.handle e).1.isHeld b = k.isHeld b)
      (hfine : ¬ k.Strays b e)
  | turns (hcalls : strokes b (k.handle e).2 = [!k.isHeld b])
      (hheld : (k.handle e).1.isHeld b = !k.isHeld b) (hfine : ¬ k.Strays b e)
  | strays (hstrays : k.Strays b e)

theorem stroked_of_set {b' : Fin 16} {down : Bool} {call : KeyCall}
    (he : k.handle e = ({ k with held := Keypad.setKey k.held b' down }, [call]))
    (hcall : ∀ b, call.stroke? b = if b' = b then some down else none)
    (hfine : ¬ k.Strays b e) (hturn : b' = b → k.isHeld b = !down) : k.Stroked b e := by
  have hget := Keypad.get_setKey k.held b' b down
  by_cases hb : b' = b
  · have hdown : down = !k.isHeld b := by rw [hturn hb, Bool.not_not]
    refine .turns ?_ ?_ hfine <;> rw [he]
    · rw [← hdown]
      exact List.filterMap_cons_some ((hcall b).trans (if_pos hb))
    · exact (hget.trans (if_pos hb.symm)).trans hdown
  · refine .rests ?_ ?_ hfine <;> rw [he]
    · exact List.filterMap_cons_none ((hcall b).trans (if_neg hb))
    · exact hget.trans (if_neg (Ne.symm hb))

theorem stroked (k : Keyboard) (b : Fin 16) (e : Event) : k.Stroked b e := by
  by_cases hstrays : k.Strays b e
  · exact .strays hstrays
  · rcases k.handle_cases e with ⟨quit, pause, he⟩ | ⟨b', hb', he⟩ |
      ⟨key, scancode, b', hup, hbound, he⟩ | ⟨order, -, he⟩
    · refine .rests ?_ ?_ hstrays <;> rw [he] <;> rfl
    · exact stroked_of_set he (fun _ => rfl) hstrays fun hb => hb ▸ hb'
    · refine stroked_of_set he (fun _ => rfl) hstrays ?_
      rintro rfl
      -- a key that goes up is held, or it would stray
      by_contra hheld
      exact hstrays ⟨Bool.eq_false_iff.mpr hheld, key, scancode, hup, hbound⟩
    · have hlost := k.strokes_releaseAll order b
      cases hheld : k.isHeld b with
      | true =>
        refine .turns ?_ ?_ hstrays <;> rw [he, hheld]
        · rw [hlost, if_pos hheld]
          rfl
        · exact isHeld_idle b
      | false =>
        refine .rests ?_ ?_ hstrays <;> rw [he]
        · rw [hlost, hheld, if_neg Bool.false_ne_true]
        · rw [hheld]
          exact isHeld_idle b

/-! ## All events -/

theorem straysIn_nil : ¬ k.StraysIn b [] := by
  rintro ⟨before, e, later, h, -⟩
  cases before <;> cases h

theorem straysIn_cons :
    k.StraysIn b (e :: es) ↔ k.Strays b e ∨ (k.handle e).1.StraysIn b es := by
  constructor
  · rintro ⟨before, e', later, h, hstrays⟩
    cases before with
    | nil =>
      cases h
      exact .inl hstrays
    | cons _ before =>
      cases h
      exact .inr ⟨before, e', later, rfl, hstrays⟩
  · rintro (hstrays | ⟨before, e', later, rfl, hstrays⟩)
    · exact ⟨[], e, es, rfl, hstrays⟩
    · exact ⟨e :: before, e', later, rfl, hstrays⟩

/-- **The calls for a key come by turns** until it strays. -/
theorem chain_strokes_iff (k : Keyboard) (b : Fin 16) (es : List Event) :
    (k.isHeld b :: strokes b (k.calls es)).IsChain (· ≠ ·) ↔ ¬ k.StraysIn b es := by
  induction es generalizing k with
  | nil => exact iff_of_true (.singleton _) straysIn_nil
  | cons e es ih =>
    have hrest := ih (k.handle e).1
    rw [calls, strokes_append, straysIn_cons, not_or]
    cases k.stroked b e with
    | rests hcalls hheld hfine =>
      rw [hheld] at hrest
      rw [hcalls, List.nil_append, hrest]
      exact (and_iff_right hfine).symm
    | turns hcalls hheld hfine =>
      rw [hheld] at hrest
      rw [hcalls, List.singleton_append, List.isChain_cons_cons, hrest]
      exact and_congr_left' (iff_of_true (by simp) hfine)
    | strays hstrays =>
      -- the release finds the key up already
      rw [hstrays.strokes, hstrays.1, List.singleton_append, List.isChain_cons_cons]
      exact iff_of_false (fun h => h.1 rfl) (fun h => h.1 hstrays)

/-- A key is held that has been pressed and not been released since. -/
theorem isHeld_after (k : Keyboard) (b : Fin 16) (es : List Event) :
    (k.after es).isHeld b = (strokes b (k.calls es)).getLastD (k.isHeld b) := by
  induction es generalizing k with
  | nil => rfl
  | cons e es ih =>
    have hrest : (k.after (e :: es)).isHeld b = _ := ih (k.handle e).1
    rw [calls, strokes_append]
    cases k.stroked b e with
    | rests hcalls hheld hfine => rw [hcalls, List.nil_append, hrest, hheld]
    | turns hcalls hheld hfine =>
      rw [hcalls, List.singleton_append, List.getLastD_cons, hrest, hheld]
    | strays hstrays =>
      rw [hrest, hstrays.strokes, hstrays.handle, List.singleton_append, List.getLastD_cons,
        hstrays.1]

/--
**The calls for a key come by turns unless it strays.** Whatever the events that a new keyboard has
taken in, a key has been pressed and released by turns, a press first, if and only if it has never
gone up without being held. Held is what has been pressed and not been released since. A key that is
held is not pressed again, and one that is not held is released only when it goes up all the same;
nothing but this one release comes of that.
-/
theorem by_turns_unless_stray (b : Fin 16) (es : List Event) :
    let k := idle.after es
    ((false :: strokes b (idle.calls es)).IsChain (· ≠ ·) ↔ ¬ idle.StraysIn b es) ∧
    k.isHeld b = (strokes b (idle.calls es)).getLastD false ∧
    ∀ e, (.press b ∈ (k.handle e).2 → k.isHeld b = false) ∧
      (.release b ∈ (k.handle e).2 →
        k.isHeld b = true ∨ k.Strays b e ∧ k.handle e = (k, [.release b])) := by
  intro k
  have hchain := idle.chain_strokes_iff b es
  have hheld := idle.isHeld_after b es
  rw [isHeld_idle] at hchain hheld
  refine ⟨hchain, hheld, fun e => ⟨fun hpress => ?_, fun hrelease => ?_⟩⟩
  · have hmem := mem_strokes_of_press hpress
    cases k.stroked b e with
    | rests hcalls _ _ => simp [hcalls] at hmem
    | turns hcalls _ _ => simpa [hcalls] using hmem
    | strays hstrays => exact hstrays.1
  · have hmem := mem_strokes_of_release hrelease
    cases k.stroked b e with
    | rests hcalls _ _ => simp [hcalls] at hmem
    | turns hcalls _ _ => exact .inl (by simpa [hcalls] using hmem)
    | strays hstrays => exact .inr ⟨hstrays, hstrays.handle⟩

/-- A key is let go with the focus and comes up afterwards: it is released for the second time. -/
theorem by_turns_unless_stray_out_of_focus :
    let es := [.down 49 (some 30), .focusLost .ascending]
    let k := idle.after es
    ((false :: strokes 1 (idle.calls es)).IsChain (· ≠ ·) ∧
      .release 1 ∈ (k.handle (.up 49 (some 30))).2) ∧
    ¬ idle.StraysIn 1 es ∧ k.handle (.up 49 (some 30)) = (k, [.release 1]) := by
  intro es k
  have hchain : (false :: strokes 1 (idle.calls es)).IsChain (· ≠ ·) := by decide
  have hrelease : .release 1 ∈ (k.handle (.up 49 (some 30))).2 := by decide
  have hheld : k.isHeld 1 ≠ true := by decide
  obtain ⟨hturns, -, hcalls⟩ := by_turns_unless_stray 1 es
  obtain ⟨-, hreleased⟩ := hcalls (.up 49 (some 30))
  obtain ⟨-, hhandle⟩ := (hreleased hrelease).resolve_left hheld
  exact ⟨⟨hchain, hrelease⟩, hturns.mp hchain, hhandle⟩

/-- So the calls do not always come by turns. A key that asks for a pause by its meaning is released
by its place without having been pressed, and one that was let go with the focus is released
twice. -/
theorem stray_releases :
    idle.calls [.down pauseKey (some 21), .up pauseKey (some 21)] = [.release 0xD] ∧
    ¬ (false :: strokes 0xD (idle.calls [.down pauseKey (some 21), .up pauseKey (some 21)])).IsChain
      (· ≠ ·) ∧
    idle.calls [.down 49 (some 30), .focusLost .ascending, .up 49 (some 30)] =
      [.press 1, .release 1, .release 1] ∧
    ¬ (false :: strokes 1 (idle.calls [.down 49 (some 30), .focusLost .ascending, .up 49 (some 30)])).IsChain
      (· ≠ ·) := by
  decide

end Keyboard

end ChipEight
