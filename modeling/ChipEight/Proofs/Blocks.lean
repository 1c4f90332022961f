import ChipEight.Proofs.Cuts

/-!
# Blocks are exact

Before a block is cut out of memory, two addresses are checked, wherever the block lies and
whichever way it runs. A cut itself refuses nothing: asked for positions below zero it would take
bytes from the end of memory, and asked for more than there are it would give fewer. The two checks
keep it from both. So there is one condition for a block to be read (`IsRange`), it is also that of
the check alone and, for two bytes, that of a word, and whatever is read is what was asked for.
-/

namespace ChipEight

/-- What comes behind a check and cannot fail is refused when the check is. -/
theorem map_eq_error_iff {ε α β : Type} {x : Except ε α} {f : α → β} {e : ε} :
    x.map f = .error e ↔ x = .error e := by
  cases x with
  | error e' =>
    exact ⟨fun h => congrArg _ (Except.error.inj h), fun h => congrArg _ (Except.error.inj h)⟩
  | ok a => exact ⟨nofun, nofun⟩

namespace Memory

variable {m : Memory} {addr length : Int} {e : MemoryError}

theorem readBlock_eq_error_iff : m.readBlock addr length = .error e ↔
    checkRange addr length = .error e := by
  rw [readBlock_eq_cut, map_eq_error_iff]

theorem fetchWord_eq_error_iff : m.fetchWord addr = .error e ↔ checkRange addr 2 = .error e := by
  rw [fetchWord_eq, map_eq_error_iff]

theorem exists_checkRange_error_iff :
    (∃ e, checkRange addr length = .error e) ↔ ¬ IsRange addr length := by
  refine ⟨fun ⟨e, he⟩ hrange => ?_, checkRange_of_not_isRange⟩
  rw [checkRange_of_isRange hrange] at he
  cases he

theorem not_isRange_iff : ¬ IsRange addr length ↔
    length ≠ 0 ∧ (¬ IsAddress addr ∨ ¬ IsAddress (addr + length - 1)) := by
  rw [IsRange, not_or, Decidable.not_and_iff_not_or_not]

theorem isRange_of_readBlock {block : List UInt8} (h : m.readBlock addr length = .ok block) :
    IsRange addr length := by
  by_cases hrange : IsRange addr length
  · exact hrange
  · obtain ⟨e, he⟩ := checkRange_of_not_isRange hrange
    rw [readBlock_eq_error_iff.mpr he] at h
    cases h

/-- The entries of a block that could be read are the bytes behind its address, one by one. -/
theorem read_of_getElem?_block (hrange : IsRange addr length) {k : Nat} {b : UInt8}
    (hk : (m.block addr.toNat length.toNat)[k]? = some b) : m.read (addr + k) = .ok b := by
  obtain ⟨hlt, hbyte⟩ := getElem?_block.mp hk
  obtain ⟨hfirst, hlast⟩ := hrange.resolve_left (by omega)
  have haddr : IsAddress (addr + k) := by
    unfold IsAddress at hfirst hlast ⊢
    omega
  have hplace : (addr + k).toNat = addr.toNat + k := Int.toNat_add hfirst.1 (Int.natCast_nonneg k)
  rw [m.read_of_isAddress haddr, hplace, hbyte]

/-- A word is the two bytes of a block. -/
theorem fetchWord_of_readBlock {block : List UInt8} (h : m.readBlock addr 2 = .ok block) :
    ∃ hi lo, block = [hi, lo] ∧ m.fetchWord addr = .ok (256 * hi.toNat + lo.toNat) := by
  have hrange := isRange_of_readBlock h
  rw [m.readBlock_of_isRange hrange] at h
  refine ⟨m.byte addr.toNat, m.byte (addr.toNat + 1), (Except.ok.inj h).symm, ?_⟩
  rw [fetchWord_eq, checkRange_of_isRange hrange]
  rfl

/--
**A block is read exactly or not at all.** It is refused if it is not empty and begins or ends
where there is no address; the check of its range is refused for the same reason, and so is a word,
for the reason for which the two bytes at its address are. A block that is read has as many bytes as
were asked for, none for a negative length, each of them the byte at its own address. It is what the
cut between the two positions gives, so that none of the ways in which a cut could go wrong is
ever taken. A word is the two bytes of its block.
-/
theorem blocks_exact (m : Memory) (addr length : Int) :
    ((∃ e, m.readBlock addr length = .error e) ↔
      length ≠ 0 ∧ (¬ IsAddress addr ∨ ¬ IsAddress (addr + length - 1))) ∧
    (∀ block, m.readBlock addr length = .ok block →
      (block.length : Int) = max 0 length ∧ block = cut m.bytes.toList addr (addr + length) ∧
      ∀ (k : Nat) b, block[k]? = some b → m.read (addr + k) = .ok b) ∧
    (∀ e, checkRange addr length = .error e ↔ m.readBlock addr length = .error e) ∧
    (∀ e, m.fetchWord addr = .error e ↔ m.readBlock addr 2 = .error e) ∧
    ∀ block, m.readBlock addr 2 = .ok block →
      ∃ hi lo, block = [hi, lo] ∧ m.fetchWord addr = .ok (256 * hi.toNat + lo.toNat) := by
  refine ⟨?_, fun block hblock => ?_, fun e => readBlock_eq_error_iff.symm, fun e => ?_,
    fun block => fetchWord_of_readBlock⟩
  · simp only [readBlock_eq_error_iff]
    rw [exists_checkRange_error_iff, not_isRange_iff]
  · have hrange := isRange_of_readBlock hblock
    rw [m.readBlock_of_isRange hrange] at hblock
    obtain rfl := Except.ok.inj hblock
    refine ⟨?_, (m.cut_of_isRange hrange).symm, fun k b => read_of_getElem?_block hrange⟩
    rw [length_block]
    omega
  · rw [fetchWord_eq_error_iff, readBlock_eq_error_iff]

/-- The last three bytes are a block; from the last two on there is a word but no block of three.
Bytes below zero are not taken from the end, and a block of negative length has none. -/
theorem blocks_exact_at_end :
    let m := blank.putAll 0xFFD [0x12, 0x34, 0x56]
    m.readBlock 0xFFD 3 = .ok [0x12, 0x34, 0x56] ∧ m.read (0xFFD + (2 : Nat)) = .ok 0x56 ∧
    m.fetchWord 0xFFE = .ok 0x3456 ∧ m.readBlock 5 (-2) = .ok [] ∧
    (∃ e, m.readBlock 0xFFE 3 = .error e) ∧ (∃ e, m.readBlock (-3) 2 = .error e) ∧
    ∃ e, m.fetchWord (-3) = .error e := by
  intro m
  obtain ⟨hthree, htwo⟩ :
      m.block 0xFFD 3 = [0x12, 0x34, 0x56] ∧ m.block 0xFFE 2 = [0x34, 0x56] := by
    decide +kernel
  have hread : m.readBlock 0xFFD 3 = .ok [0x12, 0x34, 0x56] :=
    (m.readBlock_of_isRange (by decide)).trans (congrArg Except.ok hthree)
  have hword : m.readBlock 0xFFE 2 = .ok [0x34, 0x56] :=
    (m.readBlock_of_isRange (by decide)).trans (congrArg Except.ok htwo)
  obtain ⟨-, hbytes, -⟩ := m.blocks_exact 0xFFD 3
  obtain ⟨hpast, -, -, -, hfetch⟩ := m.blocks_exact 0xFFE 3
  obtain ⟨hbelow, -, -, hwordBelow, -⟩ := m.blocks_exact (-3) 2
  obtain ⟨e, he⟩ := hbelow.mpr (by decide)
  obtain ⟨hi, lo, hpair, hvalue⟩ := hfetch _ hword
  obtain ⟨rfl, rfl⟩ : 0x34 = hi ∧ 0x56 = lo := by simpa using hpair
  exact ⟨hread, (hbytes _ hread).2.2 2 0x56 rfl, hvalue, m.readBlock_of_isRange (by decide),
    hpast.mpr (by decide), ⟨e, he⟩, e, (hwordBelow e).mpr he⟩

end Memory

end ChipEight
