import ChipEight.Display
import ChipEight.Record
import ChipEight.Text.Numeral

/-!
# Pictures

The display as colours. The cells of a display are kept one behind the other; for a picture they are
cut into rows and looked up in a table of two colours. The surface that the picture is shown on is
kept column by column, so rows and columns change places, and a window shows the surface stretched
to its own size, every pixel of the window taking the colour of the pixel of the surface that it
falls on.
-/

namespace ChipEight

structure Rgb where
  red : UInt8
  green : UInt8
  blue : UInt8
  deriving DecidableEq, Repr

namespace Rgb

def black : Rgb := ⟨0, 0, 0⟩

/-- The colour in the low 24 bits of a number. -/
def ofInt (n : Int) : Rgb :=
  ⟨UInt8.ofInt (n / 0x10000), UInt8.ofInt (n / 0x100), UInt8.ofInt n⟩

/-- Six lower-case hexadecimal digits. -/
def text (c : Rgb) : String := Text.hexBytes [c.red, c.green, c.blue]

end Rgb

/-- The colours of lit and of unlit cells, as they were given. -/
structure Palette where
  foreground : Int
  background : Int
  deriving DecidableEq, Repr

namespace Palette

/-- White on black. -/
def standard : Palette := ⟨0xFFFFFF, 0x000000⟩

/-- Other colours, for lit and for unlit cells. -/
def set (_ : Palette) (foreground background : Int) : Palette := ⟨foreground, background⟩

/-- The colours as a table: of unlit cells, then of lit ones. -/
def table (p : Palette) : Vector Rgb 2 := #v[.ofInt p.background, .ofInt p.foreground]

/-- The number of a cell, under which its colour stands in the table. -/
def index (lit : Bool) : Fin 2 := ⟨lit.toNat, lit.toNat_lt⟩

def colour (p : Palette) (lit : Bool) : Rgb := p.table.get (index lit)

theorem colour_eq (p : Palette) (lit : Bool) :
    p.colour lit = .ofInt (if lit then p.foreground else p.background) := by
  cases lit <;> rfl

theorem colour_inj {p : Palette} (hp : p.colour true ≠ p.colour false) {lit lit' : Bool} :
    p.colour lit = p.colour lit' ↔ lit = lit' := by
  cases lit <;> cases lit' <;> simp [hp, hp.symm]

theorem standard_colours : standard.colour true ≠ standard.colour false := by decide

def text (n : Int) : String := "#" ++ Text.hex 6 n

def record (p : Palette) : Record :=
  ⟨.info, .picture, "FrameRenderer: 64x32 (fg=" ++ text p.foreground ++ ", bg=" ++
    text p.background ++ ")"⟩

end Palette

/-! ## Rows and columns -/

namespace Grid

variable {α : Type} {width height : Nat}

theorem get_ofFn (f : Fin height → α) (y : Fin height) : (Vector.ofFn f).get y = f y :=
  Vector.getElem_ofFn y.isLt

theorem get_map {β : Type} (f : α → β) (entries : Vector α width) (x : Fin width) :
    (entries.map f).get x = f (entries.get x) :=
  Vector.getElem_map f x.isLt

theorem flat_lt (x : Fin width) (y : Fin height) : width * y.val + x.val < height * width := by
  have hrow : width * (y.val + 1) ≤ width * height := Nat.mul_le_mul_left width y.isLt
  rw [Nat.mul_add_one, Nat.mul_comm width height] at hrow
  exact Nat.lt_of_lt_of_le (Nat.add_lt_add_left x.isLt _) hrow

/-- The number of entry `x` of row `y` when the rows lie one behind the other. -/
def flat (x : Fin width) (y : Fin height) : Fin (height * width) := ⟨width * y + x, flat_lt x y⟩

/-- Entries that lie one behind the other, cut into rows. -/
def reshape (width height : Nat) (entries : Vector α (height * width)) :
    Vector (Vector α width) height :=
  Vector.ofFn fun y => Vector.ofFn fun x => entries.get (flat x y)

/-- The columns of some rows: in each, one entry of every row. -/
def transpose (rows : Vector (Vector α width) height) : Vector (Vector α height) width :=
  Vector.ofFn fun x => rows.map fun row => row.get x

theorem get_reshape (entries : Vector α (height * width)) (x : Fin width) (y : Fin height) :
    ((reshape width height entries).get y).get x = entries.get (flat x y) := by
  rw [reshape, get_ofFn, get_ofFn]

theorem get_transpose (rows : Vector (Vector α width) height) (x : Fin width) (y : Fin height) :
    ((transpose rows).get x).get y = (rows.get y).get x := by
  rw [transpose, get_ofFn, get_map]

end Grid

/-- `height` rows of `width` colours. -/
structure Picture (width height : Nat) where
  rows : Vector (Vector Rgb width) height

/-- `width` columns of `height` colours. -/
structure Surface (width height : Nat) where
  columns : Vector (Vector Rgb height) width

namespace Picture

variable {width height : Nat}

/-- The cells as numbers, in 32 rows of 64, and for each number the colour that the table has under
it. -/
def ofDisplay (p : Palette) (d : Display) : Picture 64 32 :=
  let numbers := d.cells.map Palette.index
  ⟨(Grid.reshape 64 32 numbers).map fun row => row.map p.table.get⟩

def pixel (p : Picture width height) (x : Fin width) (y : Fin height) : Rgb := (p.rows.get y).get x

/-- The same picture column by column. -/
def toSurface (p : Picture width height) : Surface width height := ⟨Grid.transpose p.rows⟩

/-- All pixels, row by row. -/
def pixels (p : Picture width height) : List Rgb := p.rows.toList.flatMap fun row => row.toList

/-- **A pixel has the colour of the cell in its place.** -/
theorem pixel_ofDisplay (p : Palette) (d : Display) (x : Fin 64) (y : Fin 32) :
    (ofDisplay p d).pixel x y = p.colour (d.lit x y) := by
  have hplace : Grid.flat x y = Display.place x y := rfl
  have hnumber : ((Grid.reshape 64 32 (d.cells.map Palette.index)).get y).get x =
      Palette.index (d.lit x y) := by
    rw [Grid.get_reshape, Grid.get_map, hplace]
    rfl
  rw [pixel, ofDisplay, Grid.get_map, Grid.get_map, hnumber]
  rfl

/-- In two different colours, a picture shows one display only. -/
theorem ofDisplay_inj {p : Palette} (hp : p.colour true ≠ p.colour false) {d d' : Display} :
    ofDisplay p d = ofDisplay p d' ↔ d = d' := by
  constructor
  · intro h
    apply Display.ext_lit
    intro x y
    have hpixel : p.colour (d.lit x y) = p.colour (d'.lit x y) := by
      rw [← pixel_ofDisplay, ← pixel_ofDisplay, h]
    exact (Palette.colour_inj hp).mp hpixel
  · intro h
    rw [h]

end Picture

namespace Surface

variable {width height : Nat}

def pixel (s : Surface width height) (x : Fin width) (y : Fin height) : Rgb :=
  (s.columns.get x).get y

/-- The position among `source` that position `i` of `target` falls on when one is stretched to
the other. -/
def nearest {source target : Nat} (h : 0 < source) (i : Fin target) : Fin source :=
  ⟨i * source / target, by
    have hi : i * source < target * source := Nat.mul_lt_mul_of_pos_right i.isLt h
    exact Nat.div_lt_of_lt_mul hi⟩

/-- The colour of pixel `(x, y)` of a window of the given size that shows the surface. -/
def scaledPixel (s : Surface width height) (hwidth : 0 < width) (hheight : 0 < height) {w h : Nat}
    (x : Fin w) (y : Fin h) : Rgb :=
  s.pixel (nearest hwidth x) (nearest hheight y)

/-- All pixels of such a window, row by row. -/
def scaledPixels (s : Surface width height) (hwidth : 0 < width) (hheight : 0 < height)
    (w h : Nat) : List Rgb :=
  (List.finRange h).flatMap fun y =>
    (List.finRange w).map fun x => s.scaledPixel hwidth hheight x y

end Surface

end ChipEight
