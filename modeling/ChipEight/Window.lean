import ChipEight.Buzzer
import ChipEight.Decimal
import ChipEight.Keyboard
import ChipEight.Machine.Host
import ChipEight.Picture

/-!
# Window

A window owns a machine, a keyboard and a buzzer, and brings them together sixty times a second.
One tick of its loop takes in the events, runs a frame of instructions unless it is paused, lets
the buzzer follow the sound timer, shows the display if the frame asked for it or the window has a
new size, and measures the time.

A request to end stops the loop before the frame, a fault before sound and picture; what was shown
last stays. A disruption, be it a failure or the user's interrupt, may come at any stage of a tick,
and leaves the window as the tick has made it up to there. If it comes before the window has kept
the fault of its machine, the window never does.

A window whose size is set, be it to the size that it has, gets an empty surface. It stays empty
until a picture is presented.
-/

namespace ChipEight

/-- Frames per second. -/
def frameRate : Nat := 60

/-- Measures how many frames are shown per second, anew after every second. -/
structure FrameMeter where
  now : Float
  since : Float
  frames : Nat
  fps : Float

namespace FrameMeter

def start : FrameMeter := ⟨0.0, 0.0, 0, 0.0⟩

/-- Accounts for a frame that took `dt` seconds; the flag says that a new rate was measured. -/
def advance (c : FrameMeter) (dt : Float) : FrameMeter × Bool :=
  let now := c.now + dt
  let frames := c.frames + 1
  let elapsed := now - c.since
  if 1.0 ≤ elapsed then
    (⟨now, now, 0, Float.ofNat frames / elapsed⟩, true)
  else
    ({ c with now := now, frames := frames }, false)

end FrameMeter

structure Size where
  width : Nat
  height : Nat
  deriving DecidableEq, Repr

structure Window (σ : Type) where
  machine : Machine σ
  keyboard : Keyboard
  buzzer : Buzzer
  palette : Palette
  scale : Nat
  title : String
  caption : String
  size : Size
  /-- The picture presented last, if any, and the size for which it was scaled. -/
  shown : Option (Picture 64 32)
  shownSize : Size
  /-- Nothing has been presented since the surface of the window was made. -/
  empty : Bool
  /-- How often a picture was presented. -/
  presented : Nat
  running : Bool
  paused : Bool
  fault : Option Fault
  meter : FrameMeter

/-- Why no window can be opened. -/
inductive OpenError where
  /-- The scale was set to nothing. -/
  | noScale
  /-- A null character stands in the title. -/
  | badTitle
  /-- There is no tone for the buzzer. -/
  | tone (e : WaveError)
  deriving DecidableEq, Repr

def OpenError.message : OpenError → String
  | .noScale => "'<' not supported between instances of 'list' and 'int'"
  | .badTitle => "embedded null character"
  | .tone e => e.message

/-- What is done to a window from outside its loop. -/
inductive Adjustment where
  | resize (size : Size)
  | pause (paused : Bool)
  deriving DecidableEq, Repr

/-- What may cut the loop short. -/
inductive Disruption where
  /-- The user interrupts the program. -/
  | interrupt
  /-- A failure that the machine knows about. -/
  | known (text : String)
  | unknown (text : String)
  deriving DecidableEq, Repr

/-- How far a tick has come. -/
inductive Stage where
  /-- The events have been taken in. -/
  | events
  /-- The pause is settled, and so many steps of the frame have been made. -/
  | steps (n : Nat)
  /-- The frame is over. A fault has been logged, but the window has not kept it yet. -/
  | frame
  | sound
  | picture
  /-- The time has been measured, and nothing is left to do. -/
  | done
  deriving DecidableEq, Repr

namespace Stage

/-- By then the window has kept the fault of its machine, if there is one. -/
def keepsFault : Stage → Bool
  | .events | .steps _ | .frame => false
  | .sound | .picture | .done => true

end Stage

/-- What happens up to the end of a tick: first the adjustments, then the events in order, and
possibly a disruption at some stage of the tick. Events that it forestalls are not listed. -/
structure Frame where
  adjustments : List Adjustment
  events : List Event
  disruption : Option (Stage × Disruption)
  deriving DecidableEq, Repr

namespace Frame

def ofEvents (events : List Event) : Frame := ⟨[], events, none⟩

/-- A frame in which the end is asked for. -/
def closing : Frame := ofEvents [.quit]

end Frame

namespace Window

variable {σ : Type}

/-- The size of the display, 64 by 32, magnified. -/
def magnified (scale : Nat) : Size := ⟨64 * scale, 32 * scale⟩

/-- Magnifications from 1 to 32 are possible; others are brought to the nearer end. -/
def clampScale (scale : Int) : Nat := (max 1 (min 32 scale)).toNat

def fullTitle : Option String → String
  | none => "CHIP-8"
  | some title => if title = "" then "CHIP-8" else "CHIP-8 - " ++ title

/-- A new window on a machine, with a buzzer of its own. Its loop does not run yet. -/
def new (machine : Machine σ) (scale : Int) (title : Option String) (buzzer : Buzzer) :
    Window σ where
  machine := machine
  keyboard := .idle
  buzzer := buzzer
  palette := .standard
  scale := clampScale scale
  title := fullTitle title
  caption := fullTitle title
  size := magnified (clampScale scale)
  shown := none
  shownSize := magnified (clampScale scale)
  empty := true
  presented := 0
  running := false
  paused := false
  fault := none
  meter := .start

/-- Opens a window on a machine: first the scale is looked at, then the title, then the mixer. -/
def create (machine : Machine σ) (scale : Option Int) (title : Option String)
    (mixer : Mixer) : Except OpenError (Window σ) :=
  match scale with
  | none => .error .noScale
  | some scale =>
    if (title.getD "").toList.contains (Char.ofNat 0) then
      .error .badTitle
    else
      match Buzzer.new mixer with
      | .error e => .error (.tone e)
      | .ok (buzzer, _) => .ok (new machine scale title buzzer)

def present (w : Window σ) : Window σ :=
  { w with
    shown := some (.ofDisplay w.palette w.machine.display)
    shownSize := w.size
    empty := false
    presented := w.presented + 1 }

/-- The pixels of the window, row by row: the picture presented last, unless its surface is
empty. -/
def pixels (w : Window σ) : List Rgb :=
  match w.empty, w.shown with
  | false, some picture =>
    picture.toSurface.scaledPixels (by decide) (by decide) w.size.width w.size.height
  | _, _ => List.replicate (w.size.width * w.size.height) Rgb.black

/-- Enters the loop: the display is shown once before the first tick. -/
def start (w : Window σ) : Window σ :=
  { w with running := true, meter := { w.meter with frames := 0, since := w.meter.now } }.present

def shutdown (w : Window σ) : Window σ := { w with buzzer := w.buzzer.shutdown.1 }

def adjust (w : Window σ) : Adjustment → Window σ
  | .resize size => { w with size := size, empty := true }
  | .pause paused => { w with paused := paused }

def adjustAll (w : Window σ) (adjustments : List Adjustment) : Window σ :=
  adjustments.foldl adjust w

/-! ## One tick

Every part is described up to a stage, at which a disruption may come. If the tick ends before that
stage, because the end is asked for or the machine faults, the disruption comes behind it. -/

/-- Hands an event to the keyboard, and to the machine what comes of it. -/
def handle (w : Window σ) (e : Event) : Window σ :=
  let (keyboard, calls) := w.keyboard.handle e
  { w with keyboard := keyboard, machine := w.machine.obeyAll calls }

def poll (w : Window σ) (events : List Event) : Window σ := events.foldl handle w

/-- Pauses or goes on if the keyboard asks for it. -/
def togglePause (w : Window σ) : Window σ :=
  let (asked, keyboard) := w.keyboard.takePause
  { w with keyboard := keyboard, paused := w.paused != asked }

def updateBuzzer (w : Window σ) : Window σ :=
  { w with buzzer := (w.buzzer.update w.paused w.machine.timers.soundActive).1 }

/-- Presents the display if it was asked for or the size is not the one presented last. -/
def refresh (w : Window σ) (redraw : Bool) : Window σ :=
  if redraw ∨ w.size ≠ w.shownSize then w.present else w

def measure (w : Window σ) (dt : Float) : Window σ :=
  let (meter, measured) := w.meter.advance dt
  let caption :=
    if measured then w.title ++ "  [" ++ Decimal.fixedText 1 meter.fps ++ " fps]" else w.caption
  { w with meter := meter, caption := caption }

/-- What a tick does after the frame: sound, picture and time. -/
def completeTo (w : Window σ) (dt : Float) (redraw : Bool) : Stage → Window σ
  | .events | .steps _ | .frame => w
  | .sound => w.updateBuzzer
  | .picture => w.updateBuzzer.refresh redraw
  | .done => (w.updateBuzzer.refresh redraw).measure dt

def complete (w : Window σ) (dt : Float) (redraw : Bool) : Window σ := w.completeTo dt redraw .done

section

variable [RandomSource σ]

/-- Runs a frame of the machine and goes on with the tick, unless the machine faults. -/
def runFrameTo (w : Window σ) (dt : Float) (stage : Stage) : Window σ :=
  match stage with
  | .events => w
  | .steps n =>
    let count := min n (w.machine.timers.speed.stepsPerFrame frameRate)
    { w with machine := (w.machine.runSteps count false).1 }
  | .frame => { w with machine := (w.machine.frame frameRate).1 }
  | _ =>
    match w.machine.frame frameRate with
    | (machine, .ok redraw) => { w with machine := machine }.completeTo dt redraw stage
    | (machine, .error f) => { w with machine := machine, fault := some f, running := false }

def runFrame (w : Window σ) (dt : Float) : Window σ := w.runFrameTo dt .done

def tickTo (w : Window σ) (dt : Float) (events : List Event) (stage : Stage) : Window σ :=
  let w := w.poll events
  if stage = .events then
    w
  else if w.keyboard.quit then
    { w with running := false }
  else
    let w := w.togglePause
    if w.paused then w.completeTo dt false stage else w.runFrameTo dt stage

def tick (w : Window σ) (dt : Float) (events : List Event) : Window σ := w.tickTo dt events .done

end

/-! ## A whole session -/

/-- How a session went: the window after every tick that came to its end, the window at the end of
the session, and what cut the session short, if anything did, and at which stage of a tick. -/
structure Session (σ : Type) where
  trace : List (Window σ)
  final : Window σ
  disruption : Option (Stage × Disruption)

namespace Session

/-- The failure that leaves a session. An interrupt ends it without being one. -/
def failure (s : Session σ) : Option Disruption :=
  (s.disruption.map Prod.snd).filter (· ≠ .interrupt)

/-- The loop of a window that has been started. When the frames are used up the end is asked
for. -/
def loop [RandomSource σ] (dt : Float) (w : Window σ) : List Frame → Session σ
  | [] =>
    if w.running then
      let w := w.tick dt Frame.closing.events
      ⟨[w], w, none⟩
    else
      ⟨[], w, none⟩
  | f :: frames =>
    if w.running then
      let w := w.adjustAll f.adjustments
      match f.disruption with
      | some (stage, d) => ⟨[], w.tickTo dt f.events stage, some (stage, d)⟩
      | none =>
        let w := w.tick dt f.events
        let rest := loop dt w frames
        ⟨w :: rest.trace, rest.final, rest.disruption⟩
    else
      ⟨[], w, none⟩

end Session

/-- Runs the loop and shuts down. -/
def run [RandomSource σ] (w : Window σ) (dt : Float) (frames : List Frame) : Session σ :=
  let session := Session.loop dt w.start frames
  { session with final := session.final.shutdown }

/-! ## What a window logs

Records of opening it, of pauses and the fault that ends the session, and around the loop; those
of the keyboard and of the machine come between. -/

private def info (text : String) : Record := ⟨.info, .window, text⟩

/-- The records of an attempt to open a window. -/
def openRecords (mixer : Mixer) : Except OpenError (Window σ) → List Record
  | .error .noScale => []
  | .error _ => [Palette.standard.record]
  | .ok w =>
    w.palette.record :: Buzzer.records mixer ++
      [info ("Window: " ++ toString w.size.width ++ "x" ++ toString w.size.height ++
        " display (scale=" ++ toString w.scale ++ ", " ++ toString frameRate ++ " Hz)")]

def pollRecords (w : Window σ) : List Event → List Record
  | [] => []
  | e :: events => w.keyboard.records e ++ (w.handle e).pollRecords events

def pauseRecords (w : Window σ) : List Record :=
  if w.keyboard.pause then [info (if w.togglePause.paused then "Paused" else "Resumed")] else []

variable [RandomSource σ]

def frameRecordsTo (w : Window σ) : Stage → List Record
  | .events => []
  | .steps n => w.machine.runRecords (min n (w.machine.timers.speed.stepsPerFrame frameRate))
  | _ =>
    let halted := match (w.machine.frame frameRate).2 with
      | .ok _ => []
      | .error f => [⟨.error, .window, "Emulation stopped: " ++ f.message⟩]
    w.machine.frameRecords frameRate ++ halted

/-- The records of a tick up to a stage. -/
def tickRecordsTo (w : Window σ) (events : List Event) (stage : Stage) : List Record :=
  let polled := w.poll events
  let after :=
    if stage = .events ∨ polled.keyboard.quit then []
    else
      polled.pauseRecords ++
        if polled.togglePause.paused then [] else polled.togglePause.frameRecordsTo stage
  w.pollRecords events ++ after

/-- The records of the loop, and of an interrupt that ends it. -/
def loopRecords (dt : Float) (w : Window σ) : List Frame → List Record
  | [] => if w.running then w.tickRecordsTo Frame.closing.events .done else []
  | f :: frames =>
    if w.running then
      let w := w.adjustAll f.adjustments
      match f.disruption with
      | some (stage, .interrupt) =>
        w.tickRecordsTo f.events stage ++ [info "Interrupted by user"]
      | some (stage, _) => w.tickRecordsTo f.events stage
      | none => w.tickRecordsTo f.events .done ++ loopRecords dt (w.tick dt f.events) frames
    else
      []

def runRecords (w : Window σ) (dt : Float) (frames : List Frame) : List Record :=
  info ("Entering main loop (target " ++ toString frameRate ++ " fps)") ::
    loopRecords dt w.start frames ++ [info "Shutting down"]

end Window

end ChipEight
