import ChipEight.Machine.Step
import ChipEight.Record

/-!
# What a host may do, and what is logged of it

A host drives a machine from outside: it lets it run, moves its keys, writes to its memory and
resets it. A call that is refused changes nothing.

There is one record when a machine has been built, one for every instruction fetched, with the
registers as they are before it, and one for the fault that stops it. A machine that is already
stopped logs nothing.
-/

namespace ChipEight

inductive HostCall where
  | step
  /-- One of `fps` frames a second. -/
  | frame (fps : Int)
  | press (key : Int)
  | release (key : Int)
  | reset
  | load (addr : Int) (data : List UInt8)
  | poke (addr value : Int)
  deriving DecidableEq, Repr

inductive HostError where
  | fault (f : Fault)
  | frameRate (fps : Int)
  | keypad (e : KeypadError)
  | memory (e : MemoryError)
  deriving DecidableEq, Repr

def HostError.message : HostError → String
  | .fault f => f.message
  | .frameRate fps => "fps must be positive, got " ++ toString fps
  | .keypad e => e.message
  | .memory e => e.message

namespace Machine

variable {σ : Type}

def press (m : Machine σ) (key : Int) : Except KeypadError (Machine σ) := do
  let keypad ← m.keypad.press key
  return { m with keypad := keypad }

def release (m : Machine σ) (key : Int) : Except KeypadError (Machine σ) := do
  let keypad ← m.keypad.release key
  return { m with keypad := keypad }

def load (m : Machine σ) (addr : Int) (data : List UInt8) : Except MemoryError (Machine σ) := do
  let memory ← m.memory.load addr data
  return { m with memory := memory }

def poke (m : Machine σ) (addr value : Int) : Except MemoryError (Machine σ) := do
  let memory ← m.memory.write addr value
  return { m with memory := memory }

/-- The machine after a call that gives no answer, and `m` itself if the call was refused. -/
def settle {ε : Type} (m : Machine σ) (wrap : ε → HostError) :
    Except ε (Machine σ) → Machine σ × Except HostError (Option Bool)
  | .ok m' => (m', .ok none)
  | .error e => (m, .error (wrap e))

variable [RandomSource σ]

/-- One of `fps` frames a second, if there is such a rate. -/
def runFrame (m : Machine σ) (fps : Int) : Machine σ × Except HostError Bool :=
  if fps ≤ 0 then
    (m, .error (.frameRate fps))
  else
    let (m', outcome) := m.frame fps.toNat
    (m', outcome.mapError .fault)

/-- Performs a call; steps and frames answer whether the display has to be shown again. -/
def perform (m : Machine σ) : HostCall → Machine σ × Except HostError (Option Bool)
  | .step =>
    let (m', outcome) := m.step
    (m', (outcome.mapError .fault).map some)
  | .frame fps =>
    let (m', outcome) := m.runFrame fps
    (m', outcome.map some)
  | .press key => m.settle .keypad (m.press key)
  | .release key => m.settle .keypad (m.release key)
  | .reset => (m.reset, .ok none)
  | .load addr data => m.settle .memory (m.load addr data)
  | .poke addr value => m.settle .memory (m.poke addr value)

end Machine

/-! ## What is logged -/

namespace Machine

variable {σ : Type}

def builtRecord (m : Machine σ) : Record :=
  ⟨.info, .machine, "Chip8: loaded " ++ toString m.program.size ++ "-byte program at " ++
    Text.address Program.start ++ " (speed=" ++ toString m.timers.speed.perSecond ++ ")"⟩

/-- The instruction about to be executed. -/
def fetchRecords (m : Machine σ) : List Record :=
  match m.memory.fetchWord m.pc with
  | .error _ => []
  | .ok word =>
    let registers := " ".intercalate (m.registers.toList.map fun b => Text.hex 2 b.toNat)
    [⟨.debug, .processor, "pc=" ++ Text.address m.pc ++ " op=0x" ++ Text.hex 4 word ++ " I=" ++
      Text.address m.index ++ " V=" ++ registers⟩]

def haltRecord (m : Machine σ) (f : Fault) : Record :=
  ⟨.error, .machine, "Chip8: halted after " ++ toString m.steps ++ " steps: " ++ f.message⟩

variable [RandomSource σ]

def stepRecords (m : Machine σ) : List Record :=
  match m.fault with
  | some _ => []
  | none =>
    match m.step.2 with
    | .ok _ => m.fetchRecords
    | .error f => m.fetchRecords ++ [m.haltRecord f]

def runRecords (n : Nat) (m : Machine σ) : List Record :=
  match n with
  | 0 => []
  | n + 1 =>
    match m.step with
    | (m', .ok _) => m.stepRecords ++ m'.runRecords n
    | (_, .error _) => m.stepRecords

def frameRecords (m : Machine σ) (fps : Nat) : List Record :=
  m.runRecords (m.timers.speed.stepsPerFrame fps)

/-- The records of a host's call. -/
def callRecords (m : Machine σ) : HostCall → List Record
  | .step => m.stepRecords
  | .frame fps => if fps ≤ 0 then [] else m.frameRecords fps.toNat
  | _ => []

end Machine

end ChipEight
