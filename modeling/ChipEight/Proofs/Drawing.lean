import ChipEight.Proofs.Cycle
import ChipEight.Proofs.History

/-!
# Drawing, cell by cell

A sprite is drawn pixel by pixel, each toggling the cell that it finds, so what a pixel meets
depends on what earlier ones did. For the cells this only matters through parity
(`lit_xorPixels`). For the collisions it matters not at all as long as no two pixels wrap to one
cell (`Apart`), and those of a sprite of up to 32 rows do not. `step_draw` puts it together: the
whole sprite might as well be drawn at once.
-/

namespace ChipEight

namespace Pixel

/-- Whether toggling the pixel changes the cell. -/
def hits (p : Pixel) (x : Fin 64) (y : Fin 32) : Bool :=
  p.bit && decide (Display.column p.x = x ∧ Display.row p.y = y)

/-- Two pixels that do not wrap to the same cell. -/
def Apart (p q : Pixel) : Prop :=
  ¬ (Display.column p.x = Display.column q.x ∧ Display.row p.y = Display.row q.y)

theorem hits_iff {p : Pixel} {x : Fin 64} {y : Fin 32} :
    p.hits x y ↔ p.bit = true ∧ Display.column p.x = x ∧ Display.row p.y = y := by
  rw [hits, Bool.and_eq_true, decide_eq_true_eq]

theorem Apart.not_hits {p q : Pixel} (h : p.Apart q) {x : Fin 64} {y : Fin 32}
    (hp : p.hits x y) : q.hits x y = false := by
  obtain ⟨-, hx, hy⟩ := hits_iff.mp hp
  apply Bool.eq_false_iff.mpr
  intro hq
  obtain ⟨-, hx', hy'⟩ := hits_iff.mp hq
  exact h ⟨hx.trans hx'.symm, hy.trans hy'.symm⟩

end Pixel

namespace Display

/-- The cell that a pixel finds. -/
def litAt (d : Display) (p : Pixel) : Bool := d.lit (column p.x) (row p.y)

/-! ## Pixels in turn -/

theorem decide_succ_odd (n : Nat) : decide ((n + 1) % 2 = 1) = !decide (n % 2 = 1) := by
  rw [← decide_not]
  congr 1
  exact propext (by omega)

/-- **A cell ends up flipped if an odd number of pixels hit it.** -/
theorem lit_xorPixels (d : Display) (ps : List Pixel) (x : Fin 64) (y : Fin 32) :
    (d.xorPixels ps).1.lit x y =
      (d.lit x y != decide (ps.countP (·.hits x y) % 2 = 1)) := by
  induction ps generalizing d with
  | nil => exact (Bool.bne_false _).symm
  | cons p ps ih =>
    have hp : (d.xorPixel p).1.lit x y = (d.lit x y != p.hits x y) := lit_xorPixel d p x y
    show ((d.xorPixel p).1.xorPixels ps).1.lit x y = _
    rw [ih, hp, List.countP_cons]
    cases p.hits x y with
    | false => simp
    | true =>
      rw [if_pos rfl, decide_succ_odd]
      cases d.lit x y <;> simp

theorem litAt_xorPixel_of_apart (d : Display) {p q : Pixel} (h : p.Apart q) :
    (d.xorPixel p).1.litAt q = d.litAt q := by
  rw [litAt, lit_xorPixel, decide_eq_false h, Bool.and_false, Bool.bne_false]
  rfl

theorem xorPixel_snd (d : Display) (p : Pixel) : (d.xorPixel p).2 = (p.bit && d.litAt p) := by
  show (d.litAt p && !(d.litAt p != p.bit)) = _
  cases d.litAt p <;> cases p.bit <;> rfl

/-- Pixels that are apart collide with what was there before any of them. -/
theorem xorPixels_snd_of_apart (d : Display) {ps : List Pixel} (h : ps.Pairwise Pixel.Apart) :
    (d.xorPixels ps).2 = ps.countP fun p => p.bit && d.litAt p := by
  induction ps generalizing d with
  | nil => rfl
  | cons p ps ih =>
    obtain ⟨hp, hps⟩ := List.pairwise_cons.mp h
    have hsame : ps.countP (fun q => q.bit && (d.xorPixel p).1.litAt q) =
        ps.countP fun q => q.bit && d.litAt q := by
      apply List.countP_congr
      intro q hq
      rw [d.litAt_xorPixel_of_apart (hp q hq)]
    show ((d.xorPixel p).1.xorPixels ps).2 + (d.xorPixel p).2.toNat = _
    rw [ih _ hps, hsame, xorPixel_snd, List.countP_cons]
    cases p.bit && d.litAt p <;> rfl

/-- Of pixels that are apart, at most one hits a given cell. -/
theorem countP_hits_of_apart {ps : List Pixel} (h : ps.Pairwise Pixel.Apart) (x : Fin 64)
    (y : Fin 32) : ps.countP (·.hits x y) = (ps.any (·.hits x y)).toNat := by
  induction ps with
  | nil => rfl
  | cons p ps ih =>
    obtain ⟨hp, hps⟩ := List.pairwise_cons.mp h
    rw [List.countP_cons, List.any_cons, ih hps]
    cases hhit : p.hits x y with
    | false => simp
    | true =>
      have hnone : ps.any (·.hits x y) = false :=
        List.any_eq_false.mpr fun q hq => by rw [(hp q hq).not_hits hhit]; decide
      rw [hnone]
      rfl

/-! ## The pixels of a sprite -/

theorem mem_spritePixels {x y : Int} {sprite : List UInt8} {p : Pixel} :
    p ∈ spritePixels x y sprite ↔
      ∃ (r : Nat) (b : UInt8) (c : Nat), sprite[r]? = some b ∧ c < 8 ∧
        p = ⟨x + c, y + r, spriteBit b c⟩ := by
  induction sprite generalizing y with
  | nil => simp [spritePixels]
  | cons b bs ih =>
    rw [spritePixels, List.mem_append, ih]
    constructor
    · rintro (hp | ⟨r, b', c, hb, hc, rfl⟩)
      · obtain ⟨c, hc, rfl⟩ := List.mem_map.mp hp
        exact ⟨0, b, c, rfl, List.mem_range.mp hc, by simp⟩
      · refine ⟨r + 1, b', c, hb, hc, ?_⟩
        congr 1
        omega
    · rintro ⟨r, b', c, hb, hc, rfl⟩
      cases r with
      | zero =>
        cases hb
        exact .inl (List.mem_map.mpr ⟨c, List.mem_range.mpr hc, by simp⟩)
      | succ r =>
        refine .inr ⟨r, b', c, hb, hc, ?_⟩
        congr 1
        omega

theorem column_eq_iff {a b : Int} : column a = column b ↔ a % 64 = b % 64 := by
  simp only [column, Fin.mk.injEq]
  omega

theorem row_eq_iff {a b : Int} : row a = row b ↔ a % 32 = b % 32 := by
  simp only [row, Fin.mk.injEq]
  omega

theorem spriteRow_apart (x y : Int) (b : UInt8) : (spriteRow x y b).Pairwise Pixel.Apart := by
  rw [spriteRow, List.pairwise_map]
  refine (List.pairwise_lt_range (n := 8)).imp_of_mem ?_
  intro c c' _ hc' hlt hsame
  have hcol := column_eq_iff.mp hsame.1
  have := List.mem_range.mp hc'
  dsimp only at hcol
  omega

/-- **No two pixels of a sprite meet.** Eight columns do not wrap around the screen, and neither
do 32 rows. -/
theorem spritePixels_apart (x y : Int) {sprite : List UInt8} (h : sprite.length ≤ 32) :
    (spritePixels x y sprite).Pairwise Pixel.Apart := by
  induction sprite generalizing y with
  | nil => exact List.Pairwise.nil
  | cons b bs ih =>
    rw [List.length_cons] at h
    refine List.pairwise_append.mpr ⟨spriteRow_apart x y b, ih _ (by omega), ?_⟩
    -- a lower row differs from this one by at most 31
    intro p hp q hq hsame
    obtain ⟨c, -, rfl⟩ := List.mem_map.mp hp
    obtain ⟨r, b', c', hb, -, rfl⟩ := mem_spritePixels.mp hq
    obtain ⟨hr, -⟩ := List.getElem?_eq_some_iff.mp hb
    have hrow := row_eq_iff.mp hsame.2
    dsimp only at hrow
    omega

/-! ## The cells under a sprite -/

theorem column_add_eq_iff {x : Int} {c : Nat} (hc : c < 64) {cx : Fin 64} :
    column (x + c) = cx ↔ ((cx - x : Int) % 64).toNat = c := by
  simp only [column, Fin.ext_iff]
  omega

theorem row_add_eq_iff {y : Int} {r : Nat} (hr : r < 32) {cy : Fin 32} :
    row (y + r) = cy ↔ ((cy - y : Int) % 32).toNat = r := by
  simp only [row, Fin.ext_iff]
  omega

/-- Some pixel hits a cell exactly if the sprite lies over the cell with a set bit. -/
theorem any_hits_spritePixels (x y : Int) {sprite : List UInt8} (h : sprite.length ≤ 32)
    (cx : Fin 64) (cy : Fin 32) :
    (spritePixels x y sprite).any (·.hits cx cy) ↔
      ∃ b, sprite[((cy - y : Int) % 32).toNat]? = some b ∧ ((cx - x : Int) % 64).toNat < 8 ∧
        spriteBit b ((cx - x : Int) % 64).toNat := by
  rw [List.any_eq_true]
  constructor
  · rintro ⟨p, hp, hhit⟩
    obtain ⟨r, b, c, hb, hc, rfl⟩ := mem_spritePixels.mp hp
    obtain ⟨hbit, hcol, hrow⟩ := Pixel.hits_iff.mp hhit
    obtain ⟨hr, -⟩ := List.getElem?_eq_some_iff.mp hb
    rw [(column_add_eq_iff (by omega)).mp hcol, (row_add_eq_iff (by omega)).mp hrow]
    exact ⟨b, hb, hc, hbit⟩
  · rintro ⟨b, hb, hc, hbit⟩
    refine ⟨_, mem_spritePixels.mpr ⟨_, b, _, hb, hc, rfl⟩, Pixel.hits_iff.mpr ⟨hbit, ?_, ?_⟩⟩
    · exact (column_add_eq_iff (by omega)).mpr rfl
    · exact (row_add_eq_iff (by omega)).mpr rfl

/-- **A sprite is drawn at once**: a cell is flipped if some pixel hits it. -/
theorem lit_draw (d : Display) (x y : Int) {sprite : List UInt8} (h : sprite.length ≤ 32)
    (cx : Fin 64) (cy : Fin 32) :
    (d.draw x y sprite).1.lit cx cy =
      (d.lit cx cy != (spritePixels x y sprite).any (·.hits cx cy)) := by
  show (d.xorPixels _).1.lit cx cy = _
  rw [lit_xorPixels, countP_hits_of_apart (spritePixels_apart x y h)]
  cases (spritePixels x y sprite).any (·.hits cx cy) <;> rfl

/-- **A collision is reported** if some pixel hits a cell that was lit before. -/
theorem draw_snd_iff (d : Display) (x y : Int) {sprite : List UInt8} (h : sprite.length ≤ 32) :
    (d.draw x y sprite).2 = true ↔
      ∃ cx cy, (spritePixels x y sprite).any (·.hits cx cy) ∧ d.lit cx cy := by
  show ((d.xorPixels _).2 != 0) = true ↔ _
  rw [xorPixels_snd_of_apart d (spritePixels_apart x y h), bne_iff_ne, ← Nat.pos_iff_ne_zero,
    List.countP_pos_iff]
  constructor
  · rintro ⟨p, hp, hlit⟩
    -- a pixel is the witness of its own cell
    obtain ⟨hbit, hlit⟩ := (Bool.and_eq_true _ _).mp hlit
    exact ⟨_, _, List.any_eq_true.mpr ⟨p, hp, Pixel.hits_iff.mpr ⟨hbit, rfl, rfl⟩⟩, hlit⟩
  · rintro ⟨cx, cy, hany, hlit⟩
    obtain ⟨p, hp, hhit⟩ := List.any_eq_true.mp hany
    obtain ⟨hbit, rfl, rfl⟩ := Pixel.hits_iff.mp hhit
    exact ⟨p, hp, (Bool.and_eq_true _ _).mpr ⟨hbit, hlit⟩⟩

end Display

namespace Machine

open Instruction

variable {σ : Type}

/-- Whether a sprite of `n` rows at the index, drawn at the coordinates in `x` and `y`, has a set
bit over a cell. -/
def covers (m : Machine σ) (x y : Register) (n : Nat) (cx : Fin 64) (cy : Fin 32) : Bool :=
  let dx := ((cx - (m.register x).toNat : Int) % 64).toNat
  let dy := ((cy - (m.register y).toNat : Int) % 32).toNat
  decide (dx < 8) && decide (dy < n) && (m.memory.byte (m.index + dy)).toNat.testBit (7 - dx)

/-- What the drawn pixels hit is what the sprite covers. -/
theorem any_hits_eq_covers (m : Machine σ) (x y : Register) {n : Nat} (hn : n ≤ 32)
    (cx : Fin 64) (cy : Fin 32) :
    (Display.spritePixels (m.register x).toNat (m.register y).toNat
      (m.memory.block m.index n)).any (·.hits cx cy) = m.covers x y n cx cy := by
  have hlength := m.memory.length_block m.index n
  apply Bool.eq_iff_iff.mpr
  rw [Display.any_hits_spritePixels _ _ (by omega), covers, Bool.and_eq_true, Bool.and_eq_true,
    decide_eq_true_eq, decide_eq_true_eq]
  constructor
  · rintro ⟨b, hb, hdx, hbit⟩
    obtain ⟨hdy, rfl⟩ := Memory.getElem?_block.mp hb
    exact ⟨⟨hdx, hdy⟩, hbit⟩
  · rintro ⟨⟨hdx, hdy⟩, hbit⟩
    exact ⟨_, Memory.getElem?_block.mpr ⟨hdy, rfl⟩, hdx, hbit⟩

variable [RandomSource σ]

/-- A sprite flips the cells that it covers, and the flag says whether one of them was lit. The
coordinates are those from before the step, also where the flag register is one of them. -/
theorem drawn_of_ok {m : Machine σ} (hm : m.fault = none) {redraw : Bool}
    (hok : m.step.2 = .ok redraw) {x y : Register} {n : Fin 16}
    (hw : m.AtWord (0xD000 + 256 * x + 16 * y + n)) :
    (∀ cx cy, m.step.1.display.lit cx cy = (m.display.lit cx cy != m.covers x y n cx cy)) ∧
    m.step.1.register 0xF =
      (if ∃ cx cy, m.covers x y n cx cy ∧ m.display.lit cx cy then 1 else 0) := by
  have hlength := m.memory.length_block m.index n
  have hsize : (m.memory.block m.index n).length ≤ 32 := by omega
  have hcells := m.display.lit_draw (m.register x).toNat (m.register y).toNat hsize
  have hcollision := m.display.draw_snd_iff (m.register x).toNat (m.register y).toNat hsize
  simp only [any_hits_eq_covers m x y (show n.val ≤ 32 by omega)] at hcells hcollision
  -- the tick before the instruction moves nothing that drawing looks at
  obtain ⟨m', he, -, hs⟩ := executed_of_ok hm hok (i := .draw x y n) hw
  rw [execute_draw] at he
  split at he <;> cases he
  rw [hs]
  refine ⟨hcells, ?_⟩
  show (m.tick.setRegister flagRegister (flag (m.display.draw _ _ _).2)).register
    flagRegister = _
  rw [register_setRegister, if_pos rfl]
  exact flag_eq_ite hcollision

/--
**A draw step draws the whole sprite at once.** It flips the cells under set bits, reports in the
flag register whether one of them was lit, and asks for the display to be shown. The coordinates
are those from before the step, also where the flag register is one of them.
-/
theorem step_draw {m : Machine σ} (hm : m.fault = none) {x y : Register} {n : Fin 16}
    (hw : m.AtWord (0xD000 + 256 * x + 16 * y + n)) (hn : n.val = 0 ∨ m.index + n ≤ 4096) :
    m.step.2 = .ok true ∧
    (∀ cx cy, m.step.1.display.lit cx cy = (m.display.lit cx cy != m.covers x y n cx cy)) ∧
    m.step.1.register 0xF =
      (if ∃ cx cy, m.covers x y n cx cy ∧ m.display.lit cx cy then 1 else 0) ∧
    (∀ k : Register, k ≠ 0xF → m.step.1.register k = m.register k) ∧
    m.step.1.index = m.index ∧ m.step.1.memory = m.memory ∧ m.step.1.stack = m.stack ∧
    m.step.1.pc = m.pc + 2 := by
  have hi : m.AtWord (Instruction.draw x y n).encode := hw
  have he := (execute_draw m.tick x y n).trans (if_pos hn)
  have hs := step_of_execute hm hi he
  have hok : m.step.2 = .ok true := by rw [hs]; rfl
  obtain ⟨hcells, hflag⟩ := drawn_of_ok hm hok hw
  refine ⟨hok, hcells, hflag, ?_⟩
  rw [hs]
  refine ⟨?_, rfl, rfl, rfl, rfl⟩
  intro k hk
  show (m.tick.setRegister flagRegister (flag (m.display.draw _ _ _).2)).register k = _
  exact (register_setRegister _ _ _ _).trans (if_neg hk)

/-- The glyph of 0 at column 62, which stands in the flag register: it goes on at column 0. -/
theorem step_draw_around_edge :
    let m := (holding ⟨[0x6F, 0x3E, 0xA0, 0x50, 0xDF, 0x05], by decide⟩).after [.step, .step]
    m.fault = none ∧ m.AtWord (0xD000 + 256 * (0xF : Register) + 16 * (0x0 : Register) + 5) ∧
      m.index + 5 ≤ 4096 ∧
      m.step.2 = .ok true ∧ m.step.1.display.lit 0 0 = true ∧ m.step.1.display.lit 2 0 = false ∧
      m.step.1.register 0xF = 0 ∧ m.step.1.pc = 0x206 := by
  intro m
  obtain ⟨hm, hw, hn, hcovered, hfree, hpc⟩ : m.fault = none ∧
      (m.pc ≤ 0xFFE ∧ m.word = 0xD000 + 256 * (0xF : Register) + 16 * (0x0 : Register) + 5) ∧
      m.index + 5 ≤ 4096 ∧ m.covers 0xF 0x0 5 0 0 = true ∧ m.covers 0xF 0x0 5 2 0 = false ∧
      m.pc + 2 = 0x206 := by
    decide +kernel
  have hdark : ∀ b ∈ m.display.cells.toList, b = false := by decide +kernel
  have hblank : ∀ cx cy, m.display.lit cx cy = false := fun cx cy =>
    hdark _ (Vector.mem_toList_iff.mpr (Vector.getElem_mem (Display.place cx cy).isLt))
  obtain ⟨hshow, hcells, hflag, -, -, -, -, hnext⟩ := step_draw (n := 5) hm hw (.inr hn)
  refine ⟨hm, hw, hn, hshow, ?_, ?_, ?_, hnext.trans hpc⟩
  · rw [hcells, hblank]
    exact congrArg (false != ·) hcovered
  · rw [hcells, hblank]
    exact congrArg (false != ·) hfree
  · rw [hflag]
    apply if_neg
    rintro ⟨cx, cy, -, hlit⟩
    rw [hblank] at hlit
    cases hlit

end Machine

end ChipEight
