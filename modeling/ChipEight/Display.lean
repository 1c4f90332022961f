/-!
# Display

64 columns and 32 rows of one-bit cells, kept row by row. A pixel may be toggled at any integer
coordinates, which wrap around both edges; reading one back does not wrap. Toggling reports
whether it turned a lit cell off, which is how programs detect that two pictures overlap.
-/

namespace ChipEight

structure Display where
  cells : Vector Bool 2048

/-- A pixel to be toggled when `bit` is set, at coordinates that need not lie on the screen. -/
structure Pixel where
  x : Int
  y : Int
  bit : Bool
  deriving DecidableEq, Repr

inductive DisplayError where
  | offScreen (x y : Int)
  deriving DecidableEq, Repr

def DisplayError.message : DisplayError → String
  | .offScreen x y => "pixel (" ++ toString x ++ ", " ++ toString y ++ ") outside 64x32"

namespace Display

def width : Nat := 64

def height : Nat := 32

def blank : Display := ⟨Vector.replicate 2048 false⟩

/-- Where column `x` of row `y` is kept. -/
def place (x : Fin 64) (y : Fin 32) : Fin 2048 := ⟨64 * y + x, by omega⟩

def column (x : Int) : Fin 64 := ⟨(x % 64).toNat, by omega⟩

def row (y : Int) : Fin 32 := ⟨(y % 32).toNat, by omega⟩

def lit (d : Display) (x : Fin 64) (y : Fin 32) : Bool := d.cells[place x y]

/-- Toggles the cell that the pixel wraps to if its bit is set; the flag says that the cell went
from lit to unlit. -/
def xorPixel (d : Display) (p : Pixel) : Display × Bool :=
  let k := place (column p.x) (row p.y)
  let old := d.cells[k]
  let new := old != p.bit
  (⟨d.cells.set k new⟩, old && !new)

/-- Toggles pixels one after the other and counts how many cells went from lit to unlit. -/
def xorPixels (d : Display) : List Pixel → Display × Nat
  | [] => (d, 0)
  | p :: ps =>
    let (d', off) := d.xorPixel p
    let (d'', count) := d'.xorPixels ps
    (d'', count + off.toNat)

def pixel (d : Display) (x y : Int) : Except DisplayError Bool :=
  if h : (0 ≤ x ∧ x < 64) ∧ (0 ≤ y ∧ y < 32) then
    .ok (d.lit ⟨x.toNat, by omega⟩ ⟨y.toNat, by omega⟩)
  else
    .error (.offScreen x y)

def litCount (d : Display) : Nat := d.cells.count true

/-- The cells of one row, leftmost first. -/
def rowCells (d : Display) (y : Fin 32) : List Bool := (List.finRange 64).map fun x => d.lit x y

/-- The cells of all rows, topmost first. -/
def rows (d : Display) : List (List Bool) := (List.finRange 32).map d.rowCells

def summary (d : Display) : String :=
  "DisplayBuffer(64x32, lit=" ++ toString d.litCount ++ ")"

/-! ## Sprites -/

/-- Bit `col` of a sprite's row, counted from the most significant. -/
def spriteBit (b : UInt8) (col : Nat) : Bool := b.toNat.testBit (7 - col)

/-- The eight pixels of one row of a sprite. -/
def spriteRow (x y : Int) (b : UInt8) : List Pixel :=
  (List.range 8).map fun (col : Nat) => ⟨x + col, y, spriteBit b col⟩

/-- The pixels of a sprite with its upper left corner at `(x, y)`, row by row. -/
def spritePixels (x y : Int) : List UInt8 → List Pixel
  | [] => []
  | b :: bs => spriteRow x y b ++ spritePixels x (y + 1) bs

/-- Draws a sprite; the flag says that some lit cell was turned off. -/
def draw (d : Display) (x y : Int) (sprite : List UInt8) : Display × Bool :=
  let (d', count) := d.xorPixels (spritePixels x y sprite)
  (d', count != 0)

/-! ## What toggling does to the cells -/

theorem place_inj {x x' : Fin 64} {y y' : Fin 32} : place x y = place x' y' ↔ x = x' ∧ y = y' := by
  simp only [place, Fin.ext_iff]
  omega

@[simp] theorem lit_blank (x : Fin 64) (y : Fin 32) : blank.lit x y = false := by
  simp [lit, blank]

/-- A cell is toggled by the pixel that wraps to it, and by no other. -/
theorem lit_xorPixel (d : Display) (p : Pixel) (x : Fin 64) (y : Fin 32) :
    (d.xorPixel p).1.lit x y =
      (d.lit x y != (p.bit && decide (column p.x = x ∧ row p.y = y))) := by
  simp only [lit, xorPixel, Fin.getElem_fin, Vector.getElem_set, ← Fin.ext_iff]
  by_cases h : column p.x = x ∧ row p.y = y
  · obtain ⟨rfl, rfl⟩ := h
    simp
  · simp [place_inj, h]

/-- A display is its cells. -/
theorem ext_lit {d d' : Display} (h : ∀ x y, d.lit x y = d'.lit x y) : d = d' := by
  cases d with | mk v => cases d' with | mk v' =>
  congr 1
  apply Vector.ext
  intro k hk
  have hxy := h ⟨k % 64, by omega⟩ ⟨k / 64, by omega⟩
  have hplace : 64 * (k / 64) + k % 64 = k := by omega
  simpa [lit, place, hplace] using hxy

end Display

end ChipEight
