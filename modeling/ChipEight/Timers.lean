/-!
# Timers

Two counters that run down to zero, one of them heard as a tone. Their clock is the step: every
step adds one to an accumulator, and the step on which it exceeds a sixtieth of the configured
speed empties it and takes one off both counters.
-/

namespace ChipEight

/-- Instructions per emulated second. -/
structure Speed where
  perSecond : Nat
  pos : 0 < perSecond

/-- Ticks per emulated second. -/
def timerRate : Nat := 60

namespace Speed

def default : Speed := ⟨700, by decide⟩

theorem toNat_pos {n : Int} (h : 0 < n) : 0 < n.toNat := by omega

/-- How many steps pass between two ticks of the timers. -/
def stepsPerTick (s : Speed) : Nat := s.perSecond / timerRate

/-- How many steps a host frame runs, never none. -/
def stepsPerFrame (s : Speed) (fps : Nat) : Nat := max 1 (s.perSecond / fps)

end Speed

structure Timers where
  speed : Speed
  delay : Int
  sound : Int
  accumulator : Nat

namespace Timers

def stopped (speed : Speed) : Timers := ⟨speed, 0, 0, 0⟩

/-- One less, but a counter that has run down stays. -/
def countDown (n : Int) : Int := if 0 < n then n - 1 else n

/-- Accounts for one step; the flag says that the counters went down on it. -/
def tick (t : Timers) : Timers × Bool :=
  if t.accumulator + 1 ≤ t.speed.stepsPerTick then
    ({ t with accumulator := t.accumulator + 1 }, false)
  else
    ({ t with delay := countDown t.delay, sound := countDown t.sound, accumulator := 0 }, true)

def soundActive (t : Timers) : Bool := 0 < t.sound

def reset (t : Timers) : Timers := stopped t.speed

def summary (t : Timers) : String :=
  "Timers(speed=" ++ toString t.speed.perSecond ++ ", delay=" ++ toString t.delay ++
    ", sound=" ++ toString t.sound ++ ", acc=" ++ toString t.accumulator ++ ")"

end Timers

end ChipEight
