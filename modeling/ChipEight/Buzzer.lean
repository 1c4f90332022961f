import ChipEight.Buzzer.Wave
import ChipEight.Record

/-!
# Buzzer

The buzzer sounds while the sound timer runs and nothing mutes it. What it should do and what the
sound hardware can do are kept apart: without a working mixer the buzzer still knows whether it is
playing, only no call is made. With one, the tone is started and stopped when that changes, and
shutting down stops it for good.
-/

namespace ChipEight

/-- Sample rate, sample size in bits (negative for signed samples) and number of channels. -/
structure AudioFormat where
  frequency : Int
  size : Int
  channels : Int
  deriving DecidableEq, Repr

/-- The tone of the buzzer in a format. -/
def AudioFormat.tone (f : AudioFormat) (room : Room) : Except WaveError Wave :=
  Wave.square room Wave.toneHz f.frequency Wave.toneVolume f.channels

/-- What becomes of an attempt to make sound. -/
inductive Mixer where
  /-- No attempt is made. -/
  | off
  /-- The mixer opens, with this format. So much memory is there for the tone. -/
  | opens (format : AudioFormat) (room : Room)
  | fails (reason : String)
  deriving DecidableEq, Repr

/-- What the buzzer asks of a mixer. -/
inductive MixerCall where
  | open (format : AudioFormat) (buffer : Nat)
  /-- Make a sound of samples of this shape and height; without samples there is no height. -/
  | sound (shape : List Nat) (peak : Option Int)
  /-- Play the sound so many more times, endlessly if negative. -/
  | play (loops : Int)
  | stop
  | quit
  deriving DecidableEq, Repr

structure Buzzer where
  enabled : Bool
  playing : Bool
  /-- There is a tone to start and stop. -/
  tone : Bool
  mixerOpen : Bool
  deriving DecidableEq, Repr

namespace Buzzer

/-- The format that is asked for: signed 16-bit samples, one channel. -/
def requested : AudioFormat := ⟨Wave.standardRate, -16, 1⟩

/-- A buzzer without a mixer. -/
def silent : Buzzer := ⟨false, false, false, false⟩

/-- A buzzer with a tone that has not been started. -/
def ready : Buzzer := ⟨true, false, true, true⟩

/-- A new buzzer, and the calls that made it. Only a mixer with a format in which there is no tone,
or none that the memory holds, makes this go wrong. -/
def new : Mixer → Except WaveError (Buzzer × List MixerCall)
  | .off => .ok (silent, [])
  | .fails _ => .ok (silent, [.open requested 512])
  | .opens format room => do
    let wave ← format.tone room
    return (ready, [.open requested 512, .sound wave.shape wave.peak])

/-- Follows the sound timer, called once a frame. -/
def update (b : Buzzer) (muted active : Bool) : Buzzer × List MixerCall :=
  let sounding := active && !muted
  if sounding = b.playing then
    (b, [])
  else
    let calls := if b.enabled && b.tone then [if sounding then .play (-1) else .stop] else []
    ({ b with playing := sounding }, calls)

theorem playing_update (b : Buzzer) (muted active : Bool) :
    (b.update muted active).1.playing = (active && !muted) := by
  by_cases h : (active && !muted) = b.playing <;> simp [update, h]

def shutdown (b : Buzzer) : Buzzer × List MixerCall :=
  ({ b with playing := false, tone := false, mixerOpen := false },
    (if b.tone then [.stop] else []) ++ (if b.mixerOpen then [.quit] else []))

def records : Mixer → List Record
  | .off => [⟨.info, .buzzer, "AudioDevice: disabled (silent mode)"⟩]
  | .fails reason =>
    [⟨.warning, .buzzer, "AudioDevice: mixer init failed (" ++ reason ++ "); running silent"⟩]
  | .opens format _ =>
    [⟨.info, .buzzer, "AudioDevice: mixer ready at " ++ toString format.frequency ++ " Hz, " ++
      toString format.size.natAbs ++ "-bit, " ++ toString format.channels ++
      " ch (tone=440 Hz)"⟩]

end Buzzer

end ChipEight
