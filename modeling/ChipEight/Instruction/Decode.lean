import ChipEight.Instruction.Basic

/-!
# Decoding

A word is decoded by its first nibble, in some groups by its last nibbles too. Words that are left
over mean nothing. Decoding is the inverse of encoding: a word decodes to an instruction exactly
if it is the word of that instruction, so no word is skipped silently and none is read in two ways.
-/

namespace ChipEight

def Arithmetic.ofCode? : Nat → Option Arithmetic
  | 0x0 => some .copy
  | 0x1 => some .or
  | 0x2 => some .and
  | 0x3 => some .xor
  | 0x4 => some .add
  | 0x5 => some .subtract
  | 0x6 => some .shiftRight
  | 0x7 => some .subtractFrom
  | 0xE => some .shiftLeft
  | _ => none

namespace Instruction

/-! ## Decoding, group by group -/

def systemGroup? (f : Fields) : Option Instruction :=
  match f.nnn.val with
  | 0x0E0 => some .clear
  | 0x0EE => some .ret
  | _ => none

/-- The last nibble of a comparison of registers is zero. -/
def comparison? (f : Fields) (c : Condition) : Option Instruction :=
  if f.n.val = 0 then some (.skip c) else none

def keyGroup? (f : Fields) : Option Instruction :=
  match f.nn.val with
  | 0x9E => some (.skip (.keyDown f.x))
  | 0xA1 => some (.skip (.keyUp f.x))
  | _ => none

def deviceGroup? (f : Fields) : Option Instruction :=
  match f.nn.val with
  | 0x07 => some (.readDelay f.x)
  | 0x0A => some (.awaitRelease f.x)
  | 0x15 => some (.setDelay f.x)
  | 0x18 => some (.setSound f.x)
  | 0x1E => some (.addIndex f.x)
  | 0x29 => some (.glyph f.x)
  | 0x33 => some (.storeDecimal f.x)
  | 0x55 => some (.store f.x)
  | 0x65 => some (.restore f.x)
  | _ => none

def ofFields? (f : Fields) : Option Instruction :=
  match f.op.val with
  | 0x0 => systemGroup? f
  | 0x1 => some (.jump f.nnn)
  | 0x2 => some (.call f.nnn)
  | 0x3 => some (.skip (.equalsByte f.x f.nn))
  | 0x4 => some (.skip (.differsByte f.x f.nn))
  | 0x5 => comparison? f (.equals f.x f.y)
  | 0x6 => some (.setByte f.x f.nn)
  | 0x7 => some (.addByte f.x f.nn)
  | 0x8 => (Arithmetic.ofCode? f.n).map (.compute · f.x f.y)
  | 0x9 => comparison? f (.differs f.x f.y)
  | 0xA => some (.setIndex f.nnn)
  | 0xB => some (.jumpOffset f.nnn)
  | 0xC => some (.random f.x f.nn)
  | 0xD => some (.draw f.x f.y f.n)
  | 0xE => keyGroup? f
  | 0xF => deviceGroup? f
  | _ => none

def decode? (word : Nat) : Option Instruction := ofFields? (Fields.ofInt word)

/-! ## The word of what was decoded -/

theorem ofFields?_fields (i : Instruction) : ofFields? i.fields = some i := by
  cases i with
  | compute op x y => cases op <;> rfl
  | skip c => cases c <;> simp [fields, ofFields?, comparison?, keyGroup?] <;> rfl
  | _ => simp [fields, ofFields?, systemGroup?, deviceGroup?] <;> rfl

theorem encode_of_systemGroup? {f : Fields} {i : Instruction} (h : systemGroup? f = some i)
    (hop : f.op.val = 0) : i.encode = f.word := by
  unfold systemGroup? at h
  split at h <;> cases h <;>
    (rename_i hn
     simp only [Fields.nnn] at hn
     simp only [encode, Fields.word]
     omega)

theorem eq_skip_of_comparison? {f : Fields} {c : Condition} {i : Instruction}
    (h : comparison? f c = some i) : i = .skip c ∧ f.n.val = 0 := by
  unfold comparison? at h
  split at h
  · cases h
    exact ⟨rfl, by assumption⟩
  · cases h

theorem code_of_ofCode? {n : Nat} {op : Arithmetic} (h : Arithmetic.ofCode? n = some op) :
    op.code = n := by
  unfold Arithmetic.ofCode? at h
  split at h <;> cases h <;> rfl

theorem encode_of_keyGroup? {f : Fields} {i : Instruction} (h : keyGroup? f = some i)
    (hop : f.op.val = 14) : i.encode = f.word := by
  unfold keyGroup? at h
  split at h <;> cases h <;>
    (rename_i hn
     simp only [Fields.nn] at hn
     simp only [encode, Condition.encode, Fields.word]
     omega)

theorem encode_of_deviceGroup? {f : Fields} {i : Instruction} (h : deviceGroup? f = some i)
    (hop : f.op.val = 15) : i.encode = f.word := by
  unfold deviceGroup? at h
  split at h <;> cases h <;>
    (rename_i hn
     simp only [Fields.nn] at hn
     simp only [encode, Fields.word]
     omega)

theorem encode_of_ofFields? {f : Fields} {i : Instruction} (h : ofFields? f = some i) :
    i.encode = f.word := by
  unfold ofFields? at h
  split at h
  case h_1 hop => exact encode_of_systemGroup? h hop
  case h_6 hop =>
    obtain ⟨rfl, hn⟩ := eq_skip_of_comparison? h
    simp only [encode, Condition.encode, Fields.word]
    omega
  case h_9 hop =>
    obtain ⟨op, hc, rfl⟩ := Option.map_eq_some_iff.1 h
    simp only [encode, Fields.word, code_of_ofCode? hc]
    omega
  case h_10 hop =>
    obtain ⟨rfl, hn⟩ := eq_skip_of_comparison? h
    simp only [encode, Condition.encode, Fields.word]
    omega
  case h_15 hop => exact encode_of_keyGroup? h hop
  case h_16 hop => exact encode_of_deviceGroup? h hop
  case h_17 => cases h
  all_goals
    rename_i hop
    cases h
    simp only [encode, Condition.encode, Fields.word, Fields.nnn, Fields.nn]
    omega

/-- A word decodes to an instruction exactly if it is the word of that instruction. -/
theorem decode?_eq_some_iff {w : Nat} (hw : w < 65536) {i : Instruction} :
    decode? w = some i ↔ i.encode = w := by
  constructor
  · intro h
    rw [encode_of_ofFields? h, Fields.word_ofInt hw]
  · intro h
    rw [← h, encode_eq_word, decode?, Fields.ofInt_word, ofFields?_fields]

end Instruction

end ChipEight
