import ChipEight.Machine.Host
import ChipEight.Record

/-!
# Keyboard

Sixteen keys of the left half of a keyboard stand in for the keypad, by their place and not by
what is printed on them; Escape asks for the end and P for a pause, by their meaning. A key that
repeats while it is held is ignored, and all held keys are let go when the window loses the focus.

The keyboard only says which keypad keys to press and release. Handing that on to a machine is a
separate step.

The held keys are a set, and nothing is said about the order in which such a set is gone through. So
whenever the focus is lost they may be let go in any order (`KeyOrder`), and what is proved of
keyboards, windows and whole runs is proved for each of these orders, every time anew. Since a
machine keeps the key released last, it may well find out which one it was.
-/

namespace ChipEight

/-- An order of the sixteen keys: a list of all of them, each once. -/
structure KeyOrder where
  keys : List (Fin 16)
  nodup : keys.Nodup
  complete : ∀ k, k ∈ keys
  deriving DecidableEq, Repr

def KeyOrder.ascending : KeyOrder := ⟨List.finRange 16, List.nodup_finRange 16, List.mem_finRange⟩

/-- What the window system reports. `key` is the meaning of a key, `scancode` its place. With the
loss of the focus goes the order in which the keys that are held then will be let go. -/
inductive Event where
  | down (key : Int) (scancode : Option Int)
  | up (key : Int) (scancode : Option Int)
  | quit
  | focusLost (order : KeyOrder)
  | focusGained
  deriving DecidableEq, Repr

/-- A change of one key of the keypad. -/
inductive KeyCall where
  | press (k : Fin 16)
  | release (k : Fin 16)
  deriving DecidableEq, Repr

structure Keyboard where
  held : Vector Bool 16
  /-- The end has been asked for. -/
  quit : Bool
  /-- A pause, or the end of one, has been asked for and not yet been taken note of. -/
  pause : Bool

namespace Keyboard

def idle : Keyboard := ⟨Vector.replicate 16 false, false, false⟩

def escapeKey : Int := 27

def pauseKey : Int := 112

/-- The keypad key at a place of the keyboard. The rows `1234`, `QWER`, `ASDF` and `ZXCV` are the
rows `123C`, `456D`, `789E` and `A0BF` of the keypad. -/
def binding (scancode : Int) : Option (Fin 16) :=
  match scancode with
  | 30 => some 0x1
  | 31 => some 0x2
  | 32 => some 0x3
  | 33 => some 0xC
  | 20 => some 0x4
  | 26 => some 0x5
  | 8 => some 0x6
  | 21 => some 0xD
  | 4 => some 0x7
  | 22 => some 0x8
  | 7 => some 0x9
  | 9 => some 0xE
  | 29 => some 0xA
  | 27 => some 0x0
  | 6 => some 0xB
  | 25 => some 0xF
  | _ => none

/-- The keypad key of a keyboard event, if its place is known and bound. -/
def bound (scancode : Option Int) : Option (Fin 16) := scancode.bind binding

def isHeld (k : Keyboard) (key : Fin 16) : Bool := k.held.get key

/-- The held keys, each once, in the given order. -/
def heldKeys (k : Keyboard) (order : KeyOrder) : List (Fin 16) := order.keys.filter k.isHeld

/-- Lets go of all held keys, one after the other. -/
def releaseAll (k : Keyboard) (order : KeyOrder) : Keyboard × List KeyCall :=
  ({ k with held := Vector.replicate 16 false }, (k.heldKeys order).map .release)

def handle (k : Keyboard) : Event → Keyboard × List KeyCall
  | .quit => ({ k with quit := true }, [])
  | .down key scancode =>
    if key = escapeKey then ({ k with quit := true }, [])
    else if key = pauseKey then ({ k with pause := true }, [])
    else
      match bound scancode with
      | none => (k, [])
      | some b =>
        if k.isHeld b then (k, []) else ({ k with held := Keypad.setKey k.held b true }, [.press b])
  | .up _ scancode =>
    match bound scancode with
    | none => (k, [])
    | some b => ({ k with held := Keypad.setKey k.held b false }, [.release b])
  | .focusLost order => k.releaseAll order
  | .focusGained => (k, [])

/-- Whether a pause has been asked for since the last time this was looked at. -/
def takePause (k : Keyboard) : Bool × Keyboard := (k.pause, { k with pause := false })

/-- The records of an event: a key that goes down or up, under its keypad name. -/
def records (k : Keyboard) (e : Event) : List Record :=
  let moved (calls : List KeyCall) := calls.map fun
    | .press b => ⟨.debug, .keyboard, "keypad " ++ Text.hex 1 (b.val : Int) ++ " down"⟩
    | .release b => ⟨.debug, .keyboard, "keypad " ++ Text.hex 1 (b.val : Int) ++ " up"⟩
  match e with
  | .focusLost _ => []
  | _ => moved (k.handle e).2

end Keyboard

namespace Machine

variable {σ : Type}

def obey (m : Machine σ) : KeyCall → Machine σ
  | .press k => { m with keypad := m.keypad.pressKey k }
  | .release k => { m with keypad := m.keypad.releaseKey k }

/-- Obeys calls in order. -/
def obeyAll (m : Machine σ) (calls : List KeyCall) : Machine σ := calls.foldl obey m

end Machine

end ChipEight
