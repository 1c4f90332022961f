import ChipEight.Instruction.Decode

/-!
# The words that mean something

The instruction set by the digits of its words. `IsDefined` is the list that a programmer would
read, and decoding accepts exactly the words on it. What stands at a word is then known from its
digits: every word determines its instruction (`encode_inj`), so an instruction is recognised by
writing down its word.
-/

namespace ChipEight.Instruction

/-- The words of the instruction set, a line for every way in which digits are fixed. -/
def IsDefined (w : Nat) : Prop :=
  w ∈ [0x00E0, 0x00EE] ∨
  w / 0x1000 ∈ [0x1, 0x2, 0x3, 0x4, 0x6, 0x7, 0xA, 0xB, 0xC, 0xD] ∨
  w / 0x1000 ∈ [0x5, 0x9] ∧ w % 0x10 = 0 ∨
  w / 0x1000 = 0x8 ∧ w % 0x10 ∈ [0x0, 0x1, 0x2, 0x3, 0x4, 0x5, 0x6, 0x7, 0xE] ∨
  w / 0x1000 = 0xE ∧ w % 0x100 ∈ [0x9E, 0xA1] ∨
  w / 0x1000 = 0xF ∧ w % 0x100 ∈ [0x07, 0x0A, 0x15, 0x18, 0x1E, 0x29, 0x33, 0x55, 0x65]

instance (w : Nat) : Decidable (IsDefined w) := inferInstanceAs (Decidable (_ ∨ _))

/-! ## Digits -/

theorem word_div (f : Fields) : f.word / 0x1000 = f.op := by
  simp only [Fields.word]
  omega

theorem word_mod_nibble (f : Fields) : f.word % 0x10 = f.n := by
  simp only [Fields.word]
  omega

theorem word_mod_byte (f : Fields) : f.word % 0x100 = f.nn := by
  simp only [Fields.word, Fields.nn]
  omega

theorem word_mem_system_iff (f : Fields) :
    f.word ∈ [0x00E0, 0x00EE] ↔ f.op.val = 0x0 ∧ f.nnn.val ∈ [0x0E0, 0x0EE] := by
  simp only [Fields.word, Fields.nnn, List.mem_cons, List.not_mem_nil, or_false]
  omega

/-! ## Decoding accepts what is defined, group by group -/

theorem isSome_systemGroup? (f : Fields) :
    (systemGroup? f).isSome ↔ f.nnn.val ∈ [0x0E0, 0x0EE] := by
  unfold systemGroup?
  split <;> simp_all

theorem isSome_comparison? (f : Fields) (c : Condition) :
    (comparison? f c).isSome ↔ f.n.val = 0 := by
  unfold comparison?
  split <;> simp_all

theorem isSome_ofCode? (n : Nat) :
    (Arithmetic.ofCode? n).isSome ↔
      n ∈ [0x0, 0x1, 0x2, 0x3, 0x4, 0x5, 0x6, 0x7, 0xE] := by
  unfold Arithmetic.ofCode?
  split <;> simp_all

theorem isSome_keyGroup? (f : Fields) :
    (keyGroup? f).isSome ↔ f.nn.val ∈ [0x9E, 0xA1] := by
  unfold keyGroup?
  split <;> simp_all

theorem isSome_deviceGroup? (f : Fields) :
    (deviceGroup? f).isSome ↔
      f.nn.val ∈ [0x07, 0x0A, 0x15, 0x18, 0x1E, 0x29, 0x33, 0x55, 0x65] := by
  unfold deviceGroup?
  split <;> simp_all

theorem isSome_ofFields? (f : Fields) : (ofFields? f).isSome ↔ IsDefined f.word := by
  unfold IsDefined
  rw [word_mem_system_iff, word_div, word_mod_nibble, word_mod_byte]
  unfold ofFields?
  split
  case h_1 hop => simp [hop, isSome_systemGroup?]
  case h_6 hop => simp [hop, isSome_comparison?]
  case h_9 hop => simp [hop, isSome_ofCode?]
  case h_10 hop => simp [hop, isSome_comparison?]
  case h_15 hop => simp [hop, isSome_keyGroup?]
  case h_16 hop => simp [hop, isSome_deviceGroup?]
  case h_17 =>
    -- sixteen digits, sixteen cases
    have := f.op.isLt
    simp only [imp_false] at *
    omega
  -- in the remaining groups every word means something
  all_goals
    rename_i hop
    simp [hop]

/-- **A word decodes exactly if it is defined.** -/
theorem isSome_decode? {w : Nat} (hw : w < 65536) : (decode? w).isSome ↔ IsDefined w := by
  rw [decode?, isSome_ofFields?, Fields.word_ofInt hw]

/-! ## Recognising an instruction -/

theorem encode_lt (i : Instruction) : i.encode < 65536 := by
  rw [encode_eq_word]
  exact i.fields.word_lt

theorem decode?_encode (i : Instruction) : decode? i.encode = some i :=
  (decode?_eq_some_iff i.encode_lt).mpr rfl

theorem isDefined_encode (i : Instruction) : IsDefined i.encode := by
  rw [← isSome_decode? i.encode_lt, decode?_encode]
  rfl

/-- No word is read in two ways. -/
theorem encode_inj {i j : Instruction} (h : i.encode = j.encode) : i = j := by
  have hj := decode?_encode j
  rw [← h, decode?_encode] at hj
  exact Option.some.inj hj

theorem eq_call {i : Instruction} (h : i.encode / 0x1000 = 0x2) : ∃ a, i = .call a := by
  refine ⟨⟨i.encode % 0x1000, by omega⟩, encode_inj ?_⟩
  show i.encode = 0x2000 + i.encode % 0x1000
  omega

theorem eq_draw {i : Instruction} (h : i.encode / 0x1000 = 0xD) : ∃ x y n, i = .draw x y n := by
  refine ⟨⟨i.encode / 0x100 % 0x10, by omega⟩, ⟨i.encode / 0x10 % 0x10, by omega⟩,
    ⟨i.encode % 0x10, by omega⟩, encode_inj ?_⟩
  show i.encode = 0xD000 + 256 * (i.encode / 0x100 % 0x10) + 16 * (i.encode / 0x10 % 0x10) +
    i.encode % 0x10
  omega

/-- The instructions of the last group are told apart by their low byte. -/
theorem eq_of_device {i : Instruction} (make : Register → Instruction) {b : Nat}
    (hmake : ∀ x, (make x).encode = 0xF000 + b + 256 * x) (h : i.encode / 0x1000 = 0xF)
    (hb : i.encode % 0x100 = b) : ∃ x, i = make x := by
  refine ⟨⟨i.encode / 0x100 % 0x10, by omega⟩, encode_inj ?_⟩
  rw [hmake]
  show i.encode = 0xF000 + b + 256 * (i.encode / 0x100 % 0x10)
  omega

end ChipEight.Instruction
