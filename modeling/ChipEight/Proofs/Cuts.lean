import ChipEight.Proofs.Access

/-!
# Cuts of a list

A list of bytes may be cut at any two integers. A position below zero is then counted from the end
of the list, one beyond an end stands for that end, and where the first of the two lies behind the
second there is nothing between them. Nothing is ever refused, but what is cut out may be shorter
than it was meant to be or come from the wrong end, and what is put in its place may be longer or
shorter than it. Memory has a fixed size and does not work this way. That it might as well do so is
what these theorems say: behind its checks a cut is the block that was meant, and what is put in
its place is as long as it.
-/

namespace ChipEight

section

variable {α : Type}

/-- The position in a list of `n` entries that an integer names, if it is counted from the end below
zero. -/
def position (n : Nat) (i : Int) : Nat := (if i < 0 then i + n else i).toNat

/-- The entries between two positions. -/
def cut (xs : List α) (start stop : Int) : List α :=
  (xs.drop (position xs.length start)).take
    (position xs.length stop - position xs.length start)

/-- Puts `ys` in the place of the entries between two positions. -/
def splice (xs : List α) (start stop : Int) (ys : List α) : List α :=
  xs.take (position xs.length start) ++ ys ++
    (xs.drop (position xs.length start)).drop
      (position xs.length stop - position xs.length start)

/-- Replaces one entry, if the list reaches that far. -/
def assign (xs : List α) (i : Int) (x : α) : List α :=
  if i + xs.length < 0 then xs else xs.set (position xs.length i) x

theorem position_of_nonneg (n : Nat) {i : Int} (h : 0 ≤ i) : position n i = i.toNat := by
  rw [position, if_neg (Int.not_lt.mpr h)]

theorem splice_of_nonneg (xs : List α) {start : Int} (h : 0 ≤ start) (ys : List α) :
    splice xs start (start + ys.length) ys =
      xs.take start.toNat ++ ys ++ xs.drop (start.toNat + ys.length) := by
  have hstop : (start + ys.length).toNat - start.toNat = ys.length := by omega
  rw [splice, position_of_nonneg _ h, position_of_nonneg _ (by omega), hstop, List.drop_drop]

end

namespace Memory

theorem getElem?_toList (m : Memory) {k : Nat} (h : k < 4096) :
    m.bytes.toList[k]? = some (m.byte k) := by
  simp [byte, h]

/-! ## Reading -/

theorem cut_of_isRange (m : Memory) {addr length : Int} (h : IsRange addr length) :
    cut m.bytes.toList addr (addr + length) = m.block addr.toNat length.toNat := by
  by_cases hlength : length = 0
  · -- an empty range may lie anywhere
    rw [hlength, Int.add_zero, cut, Nat.sub_self]
    rfl
  · obtain ⟨hfirst, hlast⟩ := h.resolve_left hlength
    have hstop : 0 ≤ addr + length := by
      have := hlast.1
      omega
    rw [← m.extract_of_isRange h, Vector.toList_extract, cut, position_of_nonneg _ hfirst.1,
      position_of_nonneg _ hstop]

/-- **A block is a cut**, behind the check of its ends. -/
theorem readBlock_eq_cut (m : Memory) (addr length : Int) :
    m.readBlock addr length =
      (checkRange addr length).map fun _ => cut m.bytes.toList addr (addr + length) := by
  by_cases h : IsRange addr length
  · rw [m.readBlock_of_isRange h, checkRange_of_isRange h, m.cut_of_isRange h]
    rfl
  · obtain ⟨e, he⟩ := checkRange_of_not_isRange h
    rw [readBlock, he]
    rfl

/-! ## Writing -/

theorem toList_put (m : Memory) {addr : Int} (h : IsAddress addr) (b : UInt8) :
    (m.put addr.toNat b).bytes.toList = assign m.bytes.toList addr b := by
  have hlow : ¬ addr + m.bytes.toList.length < 0 := by
    have := h.1
    omega
  rw [assign, if_neg hlow, position_of_nonneg _ h.1]
  exact Vector.toList_setIfInBounds

/-- What is put in is as long as what it takes the place of. -/
theorem toList_putAll (m : Memory) {offset : Int} {data : List UInt8} (h : 0 ≤ offset)
    (hsize : offset + data.length ≤ 4096) :
    (m.putAll offset.toNat data).bytes.toList =
      splice m.bytes.toList offset (offset + data.length) data := by
  have hfits : offset.toNat + data.length ≤ 4096 := by omega
  have hlength : ∀ b : Memory, b.bytes.toList.length = 4096 := fun b => Vector.length_toList
  have hbefore : (m.bytes.toList.take offset.toNat).length = offset.toNat := by
    rw [List.length_take, hlength]
    omega
  rw [splice_of_nonneg _ h, List.append_assoc]
  apply List.ext_getElem?
  intro k
  by_cases hk : k < 4096
  · rw [getElem?_toList _ hk, byte_putAll m hfits, List.getElem?_append, hbefore]
    by_cases hlow : k < offset.toNat
    · rw [if_pos hlow, if_pos hlow, List.getElem?_take_of_lt hlow, getElem?_toList m hk]
    · rw [if_neg hlow, if_neg hlow, List.getElem?_append]
      by_cases hinside : k - offset.toNat < data.length
      · rw [if_pos hinside, List.getElem?_eq_getElem hinside, Option.getD_some]
      · have hback : offset.toNat + data.length + (k - offset.toNat - data.length) = k := by omega
        rw [if_neg hinside, List.getElem?_eq_none (Nat.not_lt.mp hinside), Option.getD_none,
          List.getElem?_drop, hback, getElem?_toList m hk]
  · -- both end with the last address
    rw [List.getElem?_eq_none (by rw [hlength]; omega), List.getElem?_eq_none]
    rw [List.length_append, List.length_append, hbefore, List.length_drop, hlength]
    omega

end Memory

end ChipEight
