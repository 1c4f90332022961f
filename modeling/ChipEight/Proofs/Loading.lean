import ChipEight.ProgramFile
import ChipEight.Proofs.Access
import ChipEight.Proofs.History
import Mathlib.Order.Interval.Finset.Nat

/-!
# From a file to a machine

A program file is read before it is described and before a machine is built from it. So all three
are refused alike (`read_file_eq_error`), and the second look that building takes at the size finds
nothing (`build_ne_tooLarge`). What is described and what is built are computed apart from each
other, one by arithmetic and one by filling memory. That they agree is the content of `Measures`
and `Loaded`: the addresses that the description names are those that the program lies at.
-/

namespace ChipEight

namespace ProgramFile

/-- Why the bytes of a file are no program. -/
inductive Refused (path : String) (data : List UInt8) : LoadError → Prop where
  | empty (h : data = []) : Refused path data (.empty path)
  | tooLarge (h : 3584 < data.length) : Refused path data (.setup (.tooLarge data.length))

/-- The addresses that the described program takes up. -/
def Description.Covers (info : Description) (k : Nat) : Prop := info.first ≤ k ∧ k ≤ info.last

/-- The addresses and the free bytes that a description gives, and how they are written. -/
structure Measures (data : List UInt8) (info : Description) : Prop where
  first : info.first = 0x200
  last : info.last + 1 = info.first + data.length
  /-- As many as there are addresses above the program. -/
  free : info.free = (Finset.Ioo info.last 4096).card
  rangeText : info.entries.lookup "load_range" =
    some (Text.address info.first ++ "-" ++ Text.address info.last)
  freeText : info.entries.lookup "free" = some (toString info.free ++ " bytes")

/-- Memory has the program at the addresses that its description names, the font, and no more. -/
structure Loaded (data : List UInt8) (info : Description) (b : Memory) : Prop where
  program : ∀ k, info.Covers k → data[k - info.first]? = some (b.byte k)
  font : ∀ k, 0x050 ≤ k → k ≤ 0x09F → Font.bytes[k - 0x050]? = some (b.byte k)
  zero : ∀ k, ¬ info.Covers k → ¬ (0x050 ≤ k ∧ k ≤ 0x09F) → b.byte k = 0
  word : ∀ j (h : j + 1 < data.length),
    b.fetchWord (0x200 + j) = .ok (256 * data[j].toNat + data[j + 1].toNat)

end ProgramFile

namespace Machine

variable {σ : Type}

/-- Nothing has happened yet. -/
structure Untouched (m : Machine σ) : Prop where
  pc : m.pc = 0x200
  registers : ∀ x, m.register x = 0
  index : m.index = 0
  delay : m.timers.delay = 0
  sound : m.timers.sound = 0
  accumulator : m.timers.accumulator = 0
  keys : ∀ k, m.keypad.isDown k = false
  released : m.keypad.released = none
  stack : m.stack = []
  display : ∀ cx cy, m.display.lit cx cy = false
  fault : m.fault = none
  steps : m.steps = 0

theorem untouched_new (program : Program) (speed : Speed) (source : σ) :
    Untouched (new program speed source) where
  pc := rfl
  registers := by
    intro x
    show (Vector.replicate 16 (0 : UInt8))[x.val] = 0
    rw [Vector.getElem_replicate]
  index := rfl
  delay := rfl
  sound := rfl
  accumulator := rfl
  keys := by
    intro k
    show (Vector.replicate 16 false)[k.val] = false
    rw [Vector.getElem_replicate]
  released := rfl
  stack := rfl
  display := Display.lit_blank
  fault := rfl
  steps := rfl

/-- The program is looked at before the speed, and one that fits is not the reason. -/
theorem build_ne_tooLarge {data : List UInt8} (hfits : data.length ≤ 3584) (speed : Value)
    (source : σ) (size : Nat) : build (.bytes data) speed source ≠ .error (.tooLarge size) := by
  have hprogram : Program.ofImage (.bytes data) = .ok ⟨data, hfits⟩ := dif_pos hfits
  rw [build, hprogram]
  intro h
  cases speed with
  | int n =>
    by_cases hn : 0 < n
    · have hspeed : Speed.ofValue (.int n) = .ok ⟨n.toNat, Speed.toNat_pos hn⟩ := dif_pos hn
      rw [hspeed] at h
      cases h
    · have hspeed : Speed.ofValue (.int n) = .error (.speed (.int n)) := dif_neg hn
      rw [hspeed] at h
      cases h
  | _ => cases h

end Machine

namespace ProgramFile

variable {path : String} {data : List UInt8} {found : Found} {e : LoadError} {σ : Type}

/-! ## Refused alike -/

theorem refused_or_accepted (path : String) (data : List UInt8) :
    (∃ e, Refused path data e) ∨ data ≠ [] ∧ data.length ≤ 3584 := by
  by_cases hempty : data = []
  · exact .inl ⟨_, .empty hempty⟩
  · by_cases hlarge : 3584 < data.length
    · exact .inl ⟨_, .tooLarge hlarge⟩
    · exact .inr ⟨hempty, Nat.not_lt.mp hlarge⟩

theorem read_of_refused (h : Refused path data e) : read path (.file data) = .error e := by
  cases h with
  | empty h => exact if_pos h
  | tooLarge h =>
    have hempty : data ≠ [] := List.ne_nil_of_length_pos (by omega)
    exact (if_neg hempty).trans (if_pos h)

theorem read_of_accepted (path : String) (hempty : data ≠ []) (hfits : data.length ≤ 3584) :
    read path (.file data) = .ok data :=
  (if_neg hempty).trans (if_neg (Nat.not_lt.mpr hfits))

/-- What is read is neither empty nor too large. -/
theorem accepted_of_read (h : read path found = .ok data) : data ≠ [] ∧ data.length ≤ 3584 := by
  cases found with
  | file bytes =>
    rcases refused_or_accepted path bytes with ⟨e, he⟩ | haccepted
    · rw [read_of_refused he] at h
      cases h
    · rw [read_of_accepted path haccepted.1 haccepted.2] at h
      cases h
      exact haccepted
  | _ => cases h

theorem read_file_eq_error : read path (.file data) = .error e ↔ Refused path data e := by
  constructor
  · intro h
    rcases refused_or_accepted path data with ⟨e', he'⟩ | ⟨hempty, hfits⟩
    · rw [read_of_refused he'] at h
      cases h
      exact he'
    · rw [read_of_accepted path hempty hfits] at h
      cases h
  · exact read_of_refused

/-- What begins by reading, and then does not fail, fails only where reading does. -/
theorem read_bind_eq_error {α : Type} {next : List UInt8 → Except LoadError α}
    (hnext : ∀ data, read path found = .ok data → ∃ a, next data = .ok a) :
    (read path found >>= next) = .error e ↔ read path found = .error e := by
  cases hread : read path found with
  | error e' =>
    constructor
    · intro h
      cases h
      rfl
    · intro h
      cases h
      rfl
  | ok data =>
    obtain ⟨a, ha⟩ := hnext data hread
    show next data = .error e ↔ _
    rw [ha]
    exact ⟨nofun, nofun⟩

theorem describe_eq_error : describe path found = .error e ↔ read path found = .error e :=
  read_bind_eq_error fun _ _ => ⟨_, rfl⟩

/-- A positive speed is no reason to refuse, and neither is a program that could be read. -/
theorem create_eq_error {n : Int} (hn : 0 < n) (source : σ) :
    create path found (.int n) source = .error e ↔ read path found = .error e := by
  apply read_bind_eq_error
  intro data hread
  obtain ⟨program, speed, -, -, hbuild⟩ :=
    Machine.build_eq_ok (accepted_of_read hread).2 hn source
  exact ⟨_, congrArg (Except.mapError LoadError.setup) hbuild⟩

/-! ## Described as it is built -/

/-- The description of a program that is accepted. -/
theorem exists_measures (path : String) (hempty : data ≠ []) (hfits : data.length ≤ 3584) :
    ∃ info, describe path (.file data) = .ok info ∧ Measures data info := by
  have hpos : 0 < data.length := List.length_pos_of_ne_nil hempty
  rw [describe, read_of_accepted path hempty hfits]
  refine ⟨_, rfl, ⟨rfl, ?_, ?_, rfl, rfl⟩⟩
  · show 0x200 + data.length - 1 + 1 = 0x200 + data.length
    omega
  · rw [Nat.card_Ioo]
    show 3584 - data.length = 4096 - (0x200 + data.length - 1) - 1
    omega

/-- Memory is filled where the description says. -/
theorem loaded_of_measures {info : Description} (h : Measures data info) {program : Program}
    (hprogram : program.bytes = data) : Loaded data info (Machine.initialMemory program) := by
  have hfits : data.length ≤ 3584 := hprogram ▸ program.fits
  have hfirst := h.first
  have hlast := h.last
  have hfont : Font.bytes.length = 80 := rfl
  have hinside : ∀ k (hk : k < data.length),
      (Machine.initialMemory program).byte (0x200 + k) = data[k] := by
    intro k hk
    rw [Machine.byte_initialMemory, if_neg (by omega), if_neg (by omega), hprogram,
      Nat.add_sub_cancel_left, List.getElem?_eq_getElem hk]
    rfl
  constructor
  case program =>
    intro k hk
    obtain ⟨j, rfl⟩ := Nat.exists_eq_add_of_le (hfirst ▸ hk.1)
    have hj : j < data.length := by
      have := hk.2
      omega
    rw [hinside j hj, hfirst, Nat.add_sub_cancel_left, List.getElem?_eq_getElem hj]
  case font =>
    intro k hk hk'
    rw [Machine.byte_initialMemory, if_neg (by omega), if_pos (by omega),
      List.getElem?_eq_getElem (by omega)]
    rfl
  case zero =>
    intro k hprogram' hfont'
    rw [Machine.byte_initialMemory]
    by_cases hlow : k < 0x050
    · rw [if_pos hlow]
    · rw [if_neg hlow]
      by_cases hmiddle : k < 0x200
      · -- between the font and the program
        rw [if_pos hmiddle, List.getElem?_eq_none (by omega)]
        rfl
      · have habove : ¬ k ≤ info.last := fun hle => hprogram' ⟨by omega, hle⟩
        rw [if_neg hmiddle, hprogram, List.getElem?_eq_none (by omega)]
        rfl
  case word =>
    intro j hj
    have hfetch : (Machine.initialMemory program).fetchWord (0x200 + j : Nat) = .ok _ :=
      Memory.fetchWord_of_le _ (by omega)
    rw [Memory.wordAt, hinside j (by omega), Nat.add_assoc, hinside (j + 1) hj] at hfetch
    exact hfetch

/--
**From a file to a machine.** A path is refused when it is described, or when a machine is built
from it, for the very reason for which it cannot be read; a file is refused if it is empty or has
more than 3584 bytes, and for no other reason. What has been read is never too large to build from.
The machine that is built from any other file has nothing but the font and the program in its
memory, the program where the description says, and is otherwise untouched.
-/
theorem load_paths_agree (path : String) (source : σ) {n : Int} (hn : 0 < n) :
    (∀ found e, (describe path found = .error e ↔ read path found = .error e) ∧
      (create path found (.int n) source = .error e ↔ read path found = .error e)) ∧
    (∀ data e, read path (.file data) = .error e ↔ Refused path data e) ∧
    (∀ size, (LoadError.setup (.tooLarge size)).message = "program too large: " ++ toString size ++
      " bytes (limit " ++ toString 3584 ++ " bytes)") ∧
    (∀ found data, read path found = .ok data → ∀ (speed : Value) size,
      Machine.build (.bytes data) speed source ≠ .error (.tooLarge size)) ∧
    ∀ data : List UInt8, data ≠ [] → data.length ≤ 3584 → ∃ info m,
      read path (.file data) = .ok data ∧ describe path (.file data) = .ok info ∧
      create path (.file data) (.int n) source = .ok m ∧
      Measures data info ∧ Loaded data info m.memory ∧ m.Untouched ∧
      m.program.bytes = data ∧ m.timers.speed.perSecond = n ∧ m.source = source := by
  refine ⟨?_, fun _ _ => read_file_eq_error, fun _ => rfl, ?_, ?_⟩
  · intro found e
    exact ⟨describe_eq_error, create_eq_error hn source⟩
  · intro found data hread speed size
    exact Machine.build_ne_tooLarge (accepted_of_read hread).2 speed source size
  · intro data hempty hfits
    obtain ⟨info, hdescribe, hmeasures⟩ := exists_measures path hempty hfits
    obtain ⟨program, speed, hprogram, hspeed, hbuild⟩ := Machine.build_eq_ok hfits hn source
    have hread := read_of_accepted path hempty hfits
    have hcreate : create path (.file data) (.int n) source =
        .ok (Machine.new program speed source) := by
      rw [create, hread]
      exact congrArg (Except.mapError LoadError.setup) hbuild
    exact ⟨info, _, hread, hdescribe, hcreate, hmeasures, loaded_of_measures hmeasures hprogram,
      Machine.untouched_new program speed source, hprogram, hspeed, rfl⟩

/-- A file as large as can be reaches the last address; one byte more, and nothing is built. -/
theorem load_paths_agree_at_limit :
    let largest : List UInt8 := List.replicate 3584 0x12
    (0 : Int) < 700 ∧
    (∃ info m, describe "full.ch8" (.file largest) = .ok info ∧
      create "full.ch8" (.file largest) (.int 700) (RepeatingBytes.ofList []) = .ok m ∧
      info.last = 0xFFF ∧ info.free = 0 ∧ m.memory.byte 0x1FF = 0 ∧
      m.memory.fetchWord (0x200 + (3582 : Nat)) = .ok 0x1212 ∧ m.pc = 0x200) ∧
    create "full.ch8" (.file (0x12 :: largest)) (.int 700) (RepeatingBytes.ofList []) =
      .error (.setup (.tooLarge 3585)) := by
  intro largest
  have hspeed : (0 : Int) < 700 := by decide
  have hlength : largest.length = 3584 := List.length_replicate
  have hone : (0x12 :: largest).length = 3585 := congrArg (· + 1) hlength
  obtain ⟨halike, hrefused, -, -, haccepted⟩ :=
    load_paths_agree "full.ch8" (RepeatingBytes.ofList []) hspeed
  refine ⟨hspeed, ?_, ?_⟩
  · obtain ⟨info, m, -, hdescribe, hcreate, hmeasures, hloaded, huntouched, -⟩ :=
      haccepted largest (List.ne_nil_of_length_pos (by omega)) (by omega)
    have hfirst := hmeasures.first
    have hlast := hmeasures.last
    refine ⟨info, m, hdescribe, hcreate, by omega, ?_, ?_, ?_, huntouched.pc⟩
    · rw [hmeasures.free, Nat.card_Ioo]
      omega
    · have hbelow : ¬ info.Covers 0x1FF := fun h => absurd h.1 (by omega)
      exact hloaded.zero 0x1FF hbelow (by omega)
    · rw [hloaded.word 3582 (by omega), List.getElem_replicate, List.getElem_replicate]
      rfl
  · rw [(halike _ _).2, hrefused, ← hone]
    exact .tooLarge (by omega)

end ProgramFile

end ChipEight
