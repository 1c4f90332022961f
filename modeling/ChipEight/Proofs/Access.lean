import ChipEight.Memory

/-!
# Access by address

The checked operations of memory. A host may name any integer, so what exists is said of integers
first: `IsAddress` of one address, and `IsRange` of a range by its two ends. That the ends are
enough, whatever the sign of the length, is the content of `extract_of_isRange`. A machine only
holds addresses that are not negative; for these `Fits` says that a block exists. A block that
exists is read as it stands (`block`), and one that does not is refused.
-/

namespace ChipEight

namespace Memory

/-- The word at an address, the more significant byte first. -/
def wordAt (m : Memory) (addr : Nat) : Nat :=
  256 * (m.byte addr).toNat + (m.byte (addr + 1)).toNat

theorem wordAt_lt (m : Memory) (addr : Nat) : m.wordAt addr < 65536 := by
  have h₁ := (m.byte addr).toNat_lt
  have h₂ := (m.byte (addr + 1)).toNat_lt
  unfold wordAt
  omega

/-- The `n` bytes from `addr` on. -/
def block (m : Memory) (addr n : Nat) : List UInt8 :=
  (List.range n).map fun k => m.byte (addr + k)

theorem length_block (m : Memory) (addr n : Nat) : (m.block addr n).length = n := by
  rw [block, List.length_map, List.length_range]

theorem getElem?_block {m : Memory} {addr n k : Nat} {b : UInt8} :
    (m.block addr n)[k]? = some b ↔ k < n ∧ m.byte (addr + k) = b := by
  rw [block, List.getElem?_map]
  by_cases hk : k < n
  · rw [List.getElem?_range hk]
    simp [hk]
  · rw [List.getElem?_eq_none (by simpa using hk)]
    simp [hk]

/-! ## Any integer -/

/-- The addresses that memory has. -/
def IsAddress (addr : Int) : Prop := 0 ≤ addr ∧ addr < 4096

instance (addr : Int) : Decidable (IsAddress addr) := inferInstanceAs (Decidable (_ ∧ _))

/-- A range that is empty, or begins and ends with an address. -/
def IsRange (addr length : Int) : Prop :=
  length = 0 ∨ IsAddress addr ∧ IsAddress (addr + length - 1)

instance (addr length : Int) : Decidable (IsRange addr length) :=
  inferInstanceAs (Decidable (_ ∨ _))

theorem check_of_isAddress {addr : Int} (h : IsAddress addr) : check addr = .ok () := by
  obtain ⟨hlow, hhigh⟩ := h
  have hsize : addr.toNat < 4096 := by omega
  exact if_pos ⟨hlow, hsize⟩

theorem check_of_not_isAddress {addr : Int} (h : ¬ IsAddress addr) :
    check addr = .error (.address addr) := by
  refine if_neg fun hc => h ⟨hc.1, ?_⟩
  have hsize : addr.toNat < 4096 := hc.2
  omega

theorem read_of_isAddress (m : Memory) {addr : Int} (h : IsAddress addr) :
    m.read addr = .ok (m.byte addr.toNat) := by
  rw [read, check_of_isAddress h]
  rfl

theorem write_of_isAddress (m : Memory) {addr : Int} (h : IsAddress addr) (value : Int) :
    m.write addr value = .ok (m.put addr.toNat (UInt8.ofInt value)) := by
  rw [write, check_of_isAddress h]
  rfl

theorem write_of_not_isAddress (m : Memory) {addr : Int} (h : ¬ IsAddress addr) (value : Int) :
    m.write addr value = .error (.address addr) := by
  rw [write, check_of_not_isAddress h]
  rfl

theorem load_of_inside (m : Memory) {offset : Int} {data : List UInt8} (hlow : 0 ≤ offset)
    (hhigh : offset + data.length ≤ 4096) :
    m.load offset data = .ok (m.putAll offset.toNat data) := by
  refine if_neg (not_or.mpr ⟨Int.not_lt.mpr hlow, ?_⟩)
  show ¬ 4096 < offset.toNat + data.length
  omega

theorem load_of_outside (m : Memory) {offset : Int} {data : List UInt8}
    (h : offset < 0 ∨ 4096 < offset + data.length) :
    m.load offset data = .error (.block offset (offset + data.length)) := by
  refine if_pos ?_
  show offset < 0 ∨ 4096 < offset.toNat + data.length
  omega

theorem checkRange_of_ne {addr length : Int} (h : length ≠ 0) :
    checkRange addr length = (check addr >>= fun _ => check (addr + length - 1)) := if_pos h

theorem checkRange_of_isRange {addr length : Int} (h : IsRange addr length) :
    checkRange addr length = .ok () := by
  by_cases hlength : length = 0
  · exact if_neg (not_not_intro hlength)
  · obtain ⟨hfirst, hlast⟩ := h.resolve_left hlength
    rw [checkRange_of_ne hlength, check_of_isAddress hfirst]
    exact check_of_isAddress hlast

theorem checkRange_of_not_isRange {addr length : Int} (h : ¬ IsRange addr length) :
    ∃ e, checkRange addr length = .error e := by
  obtain ⟨hlength, hends⟩ := not_or.mp h
  rw [checkRange_of_ne hlength]
  by_cases hfirst : IsAddress addr
  · rw [check_of_isAddress hfirst]
    exact ⟨_, check_of_not_isAddress fun hlast => hends ⟨hfirst, hlast⟩⟩
  · rw [check_of_not_isAddress hfirst]
    exact ⟨_, rfl⟩

/-- A word is checked like a range of two bytes. -/
theorem fetchWord_eq (m : Memory) (addr : Int) :
    m.fetchWord addr = (checkRange addr 2).map fun _ => m.wordAt addr.toNat := by
  have hlast : addr + 2 - 1 = addr + 1 := by omega
  rw [checkRange_of_ne (by decide), hlast, fetchWord]
  cases check addr <;> cases check (addr + 1) <;> rfl

/-- The two ends are enough. What begins and ends with an address has no other members, and a range
of negative length has none. -/
theorem extract_of_isRange (m : Memory) {addr length : Int} (h : IsRange addr length) :
    (m.bytes.extract addr.toNat (addr + length).toNat).toList =
      m.block addr.toNat length.toNat := by
  by_cases hlength : length ≤ 0
  · -- nothing is cut out, wherever that may be
    have hnone : (m.bytes.extract addr.toNat (addr + length).toNat).toList.length = 0 := by
      rw [Vector.length_toList]
      omega
    rw [List.eq_nil_of_length_eq_zero hnone, Int.toNat_of_nonpos hlength]
    rfl
  · obtain ⟨hfirst, hlast⟩ := h.resolve_left (by omega)
    have hstop : (addr + length).toNat = addr.toNat + length.toNat :=
      Int.toNat_add hfirst.1 (by omega)
    have hsize := hlast.2
    rw [hstop, extract_toList m (by omega)]
    rfl

theorem readBlock_of_isRange (m : Memory) {addr length : Int} (h : IsRange addr length) :
    m.readBlock addr length = .ok (m.block addr.toNat length.toNat) := by
  rw [readBlock, checkRange_of_isRange h, ← m.extract_of_isRange h]
  rfl

/-! ## Addresses that are not negative -/

/-- Whether memory has `n` bytes from `addr` on. -/
def Fits (addr n : Nat) : Prop := n = 0 ∨ addr + n ≤ size

instance (addr n : Nat) : Decidable (Fits addr n) := inferInstanceAs (Decidable (_ ∨ _))

theorem isAddress_natCast {addr : Nat} : IsAddress addr ↔ addr < 4096 := by
  unfold IsAddress
  omega

theorem isRange_natCast {addr n : Nat} : IsRange addr n ↔ Fits addr n := by
  have hsize : size = 4096 := rfl
  unfold IsRange IsAddress Fits
  omega

theorem checkRange_of_fits {addr n : Nat} (h : Fits addr n) : checkRange addr n = .ok () :=
  checkRange_of_isRange (isRange_natCast.mpr h)

theorem checkRange_of_not_fits {addr n : Nat} (h : ¬ Fits addr n) :
    ∃ e, checkRange addr n = .error e :=
  checkRange_of_not_isRange (mt isRange_natCast.mp h)

theorem fetchWord_of_le (m : Memory) {addr : Nat} (h : addr ≤ 0xFFE) :
    m.fetchWord addr = .ok (m.wordAt addr) := by
  have hcheck : checkRange addr 2 = .ok () :=
    checkRange_of_fits (n := 2) (.inr (Nat.add_le_add_right h 2))
  rw [fetchWord_eq, hcheck]
  rfl

theorem fetchWord_of_lt (m : Memory) {addr : Nat} (h : 0xFFE < addr) :
    ∃ e, m.fetchWord addr = .error e := by
  have hfits : ¬ Fits addr 2 := by
    have hsize : size = 4096 := rfl
    unfold Fits
    omega
  obtain ⟨e, he⟩ := checkRange_of_not_fits hfits
  rw [fetchWord_eq]
  exact ⟨e, congrArg (Except.map fun _ => _) he⟩

theorem readBlock_of_fits (m : Memory) {addr n : Nat} (h : Fits addr n) :
    m.readBlock addr n = .ok (m.block addr n) :=
  m.readBlock_of_isRange (isRange_natCast.mpr h)

end Memory

end ChipEight
