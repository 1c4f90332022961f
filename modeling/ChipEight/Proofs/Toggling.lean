import ChipEight.Proofs.Drawing

/-!
# Toggling in any order

A display is only ever toggled pixel by pixel, at any integer coordinates. What a pixel answers
depends on the pixels before it, so the answers of a list are not those of the list in another
order. The cells do not care: a cell counts the pixels that wrap to it (`lit_xorPixels`). Neither
does the number of lit cells, since each set bit turns one cell on or one cell off, and the answers
say how often it was off (`litCount_xorPixels`).
-/

namespace ChipEight

namespace Pixel

theorem hits_eq (p : Pixel) (x : Fin 64) (y : Fin 32) :
    p.hits x y = (p.bit && decide (p.x % 64 = x.val ∧ p.y % 32 = y.val)) := by
  have hcolumn : Display.column p.x = x ↔ p.x % 64 = x.val := by
    simp only [Display.column, Fin.ext_iff]
    omega
  have hrow : Display.row p.y = y ↔ p.y % 32 = y.val := by
    simp only [Display.row, Fin.ext_iff]
    omega
  simp only [hits, hcolumn, hrow]

end Pixel

namespace Display

/-- What each of these pixels answers in its turn: whether it has turned a lit cell off. -/
def answers (d : Display) : List Pixel → List Bool
  | [] => []
  | p :: ps => (d.xorPixel p).2 :: (d.xorPixel p).1.answers ps

theorem xorPixels_snd (d : Display) (ps : List Pixel) :
    (d.xorPixels ps).2 = (d.answers ps).count true := by
  induction ps generalizing d with
  | nil => rfl
  | cons p ps ih =>
    have hrest := ih (d.xorPixel p).1
    show ((d.xorPixel p).1.xorPixels ps).2 + (d.xorPixel p).2.toNat = _
    rw [answers, List.count_cons, hrest]
    cases (d.xorPixel p).2 <;> rfl

/-! ## How many cells are lit -/

@[simp] theorem litCount_blank : blank.litCount = 0 := by
  simp [litCount, blank, Vector.count_replicate]

theorem litCount_le (d : Display) : d.litCount ≤ 2048 := Vector.count_le_size

/-- A set bit turns a cell on, or else off. -/
theorem litCount_xorPixel (d : Display) (p : Pixel) :
    (d.xorPixel p).1.litCount + 2 * (d.xorPixel p).2.toNat = d.litCount + p.bit.toNat := by
  have hcount : (d.xorPixel p).1.litCount =
      d.litCount - (d.litAt p).toNat + (d.litAt p != p.bit).toNat := by
    show (d.cells.set _ _).count true = _
    rw [Vector.count_set]
    show d.litCount - (if d.litAt p == true then 1 else 0) +
      (if (d.litAt p != p.bit) == true then 1 else 0) = _
    cases d.litAt p <;> cases p.bit <;> rfl
  rw [hcount, xorPixel_snd]
  cases hlit : d.litAt p with
  | false => cases p.bit <;> rfl
  | true =>
    -- the cell itself is among those that are lit
    have hmem : true ∈ d.cells := hlit ▸ Vector.getElem_mem _
    have hpos : 0 < d.litCount := Vector.count_pos_iff.mpr hmem
    cases p.bit
    · show d.litCount - 1 + 1 + 2 * 0 = d.litCount + 0
      omega
    · show d.litCount - 1 + 0 + 2 * 1 = d.litCount + 1
      omega

/-- **Every set bit counts**, up or down, and the answers say which. -/
theorem litCount_xorPixels (d : Display) (ps : List Pixel) :
    (d.xorPixels ps).1.litCount + 2 * (d.answers ps).count true =
      d.litCount + ps.countP (·.bit) := by
  induction ps generalizing d with
  | nil => rfl
  | cons p ps ih =>
    have hfirst := d.litCount_xorPixel p
    have hrest := ih (d.xorPixel p).1
    show ((d.xorPixel p).1.xorPixels ps).1.litCount + _ = _
    have hone : ∀ b : Bool, (if b = true then 1 else 0) = b.toNat := by decide
    rw [answers, List.count_cons, List.countP_cons, beq_true, hone, hone]
    omega

/-! ## Any order -/

theorem repeat_not (n : Nat) (b : Bool) :
    Nat.repeat not n b = (b != decide (n % 2 = 1)) := by
  induction n with
  | zero => exact (Bool.bne_false b).symm
  | succ n ih =>
    rw [Nat.repeat, ih, decide_succ_odd]
    cases b <;> cases decide (n % 2 = 1) <;> rfl

/-- A cell only counts the pixels that hit it, and counting knows no order. -/
theorem xorPixels_fst_of_perm (d : Display) {ps qs : List Pixel} (h : qs.Perm ps) :
    (d.xorPixels qs).1 = (d.xorPixels ps).1 := by
  apply ext_lit
  intro x y
  rw [lit_xorPixels, lit_xorPixels, h.countP_eq]

/--
**What toggling leaves does not depend on the order.** A cell is flipped once for each pixel with a
set bit that wraps to it. So a list of pixels in any other order leaves the same display, though the
pixels may answer differently; how many of them turn a cell off is again the same. It is the lit
cells before, and the set bits, and twice the cells turned off that make the number of lit cells
after.
-/
theorem toggled_in_any_order (d : Display) (ps : List Pixel) :
    (∀ (cx : Fin 64) (cy : Fin 32), (d.xorPixels ps).1.lit cx cy =
      Nat.repeat not
        (ps.countP fun p : Pixel => p.bit && decide (p.x % 64 = cx.val ∧ p.y % 32 = cy.val))
        (d.lit cx cy)) ∧
    (∀ qs : List Pixel, qs.Perm ps →
      (d.xorPixels qs).1 = (d.xorPixels ps).1 ∧ (d.xorPixels qs).2 = (d.xorPixels ps).2) ∧
    (d.xorPixels ps).2 = (d.answers ps).count true ∧
    ((d.xorPixels ps).1.litCount : Int) =
      d.litCount + ps.countP (·.bit) - 2 * (d.answers ps).count true ∧
    0 ≤ (d.xorPixels ps).1.litCount ∧ (d.xorPixels ps).1.litCount ≤ 2048 := by
  have hcount := d.litCount_xorPixels ps
  refine ⟨fun cx cy => ?_, fun qs hperm => ?_, d.xorPixels_snd ps, by omega, Nat.zero_le _,
    litCount_le _⟩
  · rw [lit_xorPixels, repeat_not]
    simp only [Pixel.hits_eq]
  · have hsame := d.xorPixels_fst_of_perm hperm
    have hcount' := d.litCount_xorPixels qs
    have hbits : qs.countP (·.bit) = ps.countP (·.bit) := hperm.countP_eq _
    rw [hsame, hbits] at hcount'
    refine ⟨hsame, ?_⟩
    rw [xorPixels_snd, xorPixels_snd]
    omega

/-- Two names of the cell in the upper right corner, and a cell elsewhere. It is the second or the
third pixel that turns the corner off, but one of them it is. -/
theorem toggled_in_any_order_corner :
    let ps : List Pixel := [⟨-1, 0, true⟩, ⟨63, 32, true⟩, ⟨5, -1, true⟩]
    let qs : List Pixel := [⟨-1, 0, true⟩, ⟨5, -1, true⟩, ⟨63, 32, true⟩]
    qs.Perm ps ∧
      blank.answers ps = [false, true, false] ∧ blank.answers qs = [false, false, true] ∧
      (blank.xorPixels qs).1 = (blank.xorPixels ps).1 ∧
      (blank.xorPixels ps).1.lit 63 0 = false ∧ (blank.xorPixels ps).1.lit 5 31 = true ∧
      (blank.xorPixels ps).1.litCount = 1 := by
  intro ps qs
  obtain ⟨hperm, hanswers, hanswers'⟩ : qs.Perm ps ∧
      blank.answers ps = [false, true, false] ∧ blank.answers qs = [false, false, true] := by
    decide +kernel
  obtain ⟨hcells, hany, -, hcount, -⟩ := blank.toggled_in_any_order ps
  rw [hanswers, litCount_blank] at hcount
  refine ⟨hperm, hanswers, hanswers', (hany qs hperm).1, ?_, ?_, Int.ofNat.inj hcount⟩
  · rw [hcells, lit_blank]
    rfl
  · rw [hcells, lit_blank]
    rfl

end Display

end ChipEight
