/-!
# Keypad

Sixteen keys, each up or down, and one slot for the key released last. The slot is read by at
most one instruction: the machine empties it at the end of every step, and a later release
overwrites one that no step has seen.
-/

namespace ChipEight

structure Keypad where
  keys : Vector Bool 16
  released : Option (Fin 16)

inductive KeypadError where
  /-- A key that the pad does not have. -/
  | outOfRange (key : Int)
  /-- A position that no key has, counted from either end. -/
  | position
  /-- A position that is no 64-bit number. -/
  | positionTooLarge
  /-- A number that names no key. -/
  | unnamed (key : Int)
  deriving DecidableEq, Repr

def KeypadError.message : KeypadError → String
  | .outOfRange key => "key must be in 0..15, got " ++ toString key
  | .position => "list index out of range"
  | .positionTooLarge => "cannot fit 'int' into an index-sized integer"
  | .unnamed key => toString key ++ " is not a valid Key"

namespace Keypad

/-- No key down, none just released. -/
def idle : Keypad := ⟨Vector.replicate 16 false, none⟩

def key (k : Int) : Except KeypadError (Fin 16) :=
  if h : 0 ≤ k ∧ k < 16 then .ok ⟨k.toNat, by omega⟩ else .error (.outOfRange k)

/-- The name of a key: `K` and its hexadecimal digit. -/
def name (k : Int) : Except KeypadError String :=
  if 0 ≤ k ∧ k < 16 then
    .ok (String.ofList ['K', (Nat.digitChar k.toNat).toUpper])
  else
    .error (.unnamed k)

def setKey (keys : Vector Bool 16) (k : Fin 16) (down : Bool) : Vector Bool 16 := keys.set k down

def isDown (p : Keypad) (k : Fin 16) : Bool := p.keys[k]

/-- The key at a position, a negative one counted from the last key back. -/
def isDownAt (p : Keypad) (k : Int) : Except KeypadError Bool :=
  if h : -16 ≤ k ∧ k < 16 then .ok (p.isDown ⟨(k % 16).toNat, by omega⟩)
  else if -0x8000000000000000 ≤ k ∧ k < 0x8000000000000000 then .error .position
  else .error .positionTooLarge

def pressKey (p : Keypad) (k : Fin 16) : Keypad := { p with keys := setKey p.keys k true }

def releaseKey (p : Keypad) (k : Fin 16) : Keypad := ⟨setKey p.keys k false, some k⟩

def press (p : Keypad) (k : Int) : Except KeypadError Keypad := return p.pressKey (← key k)

def release (p : Keypad) (k : Int) : Except KeypadError Keypad := return p.releaseKey (← key k)

/-- Empties the slot of the key released last. -/
def consume (p : Keypad) : Keypad := { p with released := none }

/-- The keys that are down, in ascending order. -/
def down (p : Keypad) : List (Fin 16) := (List.finRange 16).filter p.isDown

/-! ## What moving a key does -/

theorem get_setKey (keys : Vector Bool 16) (k j : Fin 16) (down : Bool) :
    (setKey keys k down).get j = if j = k then down else keys.get j := by
  show (keys.set k down)[j.val] = _
  by_cases hj : j = k
  · rw [if_pos hj, hj, Vector.getElem_set_self]
  · have hval : k.val ≠ j.val := fun h => hj (Fin.ext h.symm)
    rw [if_neg hj, Vector.getElem_set_ne _ _ hval]
    rfl

theorem isDown_pressKey (p : Keypad) (k j : Fin 16) :
    (p.pressKey k).isDown j = if j = k then true else p.isDown j :=
  get_setKey p.keys k j true

theorem isDown_releaseKey (p : Keypad) (k j : Fin 16) :
    (p.releaseKey k).isDown j = if j = k then false else p.isDown j :=
  get_setKey p.keys k j false

end Keypad

end ChipEight
