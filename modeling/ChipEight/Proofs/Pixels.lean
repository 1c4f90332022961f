import ChipEight.Window
import Mathlib.Data.Fin.Basic

/-!
# From cells to pixels

A cell of the display changes its place three times on its way to a window. The picture keeps
colours row by row, the surface column by column, and the window has its pixels row by row again,
each cell as often as it is magnified. For all that no cell comes to lie elsewhere
(`pixel_toSurface`, `pixels_present`), and what is seen of it is one of two colours, of which only
the low 24 bits count (`code_ofInt`). So the display can be read off the picture as long as these
differ.
-/

namespace ChipEight

namespace Rgb

/-- A colour as a number of 24 bits, red foremost. -/
def code (c : Rgb) : Nat := 0x10000 * c.red.toNat + 0x100 * c.green.toNat + c.blue.toNat

theorem code_ofInt (n : Int) : ((ofInt n).code : Int) = n % 0x1000000 := by
  have hred := toNat_ofInt (n / 0x10000)
  have hgreen := toNat_ofInt (n / 0x100)
  have hblue := toNat_ofInt n
  rw [code, ofInt]
  dsimp only
  omega

end Rgb

namespace Palette

/-- The colours after they have been set to these, one after the other. -/
def setAll (p : Palette) (settings : List (Int × Int)) : Palette :=
  settings.foldl (fun p colours => p.set colours.1 colours.2) p

/-- Only the last setting counts. -/
theorem setAll_eq (p : Palette) (settings : List (Int × Int)) :
    p.setAll settings =
      ⟨(settings.getLastD (p.foreground, p.background)).1,
        (settings.getLastD (p.foreground, p.background)).2⟩ := by
  induction settings generalizing p with
  | nil => rfl
  | cons colours settings ih =>
    rw [List.getLastD_cons]
    exact ih (p.set colours.1 colours.2)

theorem colour_ne {p : Palette} (h : p.foreground % 0x1000000 ≠ p.background % 0x1000000) :
    p.colour true ≠ p.colour false := by
  intro hsame
  have hcode := congrArg (fun c : Rgb => (c.code : Int)) hsame
  rw [colour_eq, colour_eq, Rgb.code_ofInt, Rgb.code_ofInt, if_pos rfl,
    if_neg Bool.false_ne_true] at hcode
  exact h hcode

end Palette

/-! ## Rows one after the other -/

theorem getElem?_flatMap_of_length {α β : Type} {g : α → List β} {width : Nat}
    (hg : ∀ a, (g a).length = width) (as : List α) (i : Nat) {j : Nat} (hj : j < width) :
    (as.flatMap g)[width * i + j]? = as[i]?.bind fun a => (g a)[j]? := by
  induction as generalizing i with
  | nil => simp
  | cons a as ih =>
    rw [List.flatMap_cons, List.getElem?_append, hg a]
    cases i with
    | zero =>
      rw [if_pos (by omega)]
      simp
    | succ i =>
      have hrest : width * (i + 1) + j - width = width * i + j := by
        rw [Nat.mul_add_one]
        omega
      rw [if_neg (by rw [Nat.mul_add_one]; omega), hrest, ih i]
      rfl

namespace Picture

variable {width height : Nat}

theorem pixel_toSurface (p : Picture width height) (x : Fin width) (y : Fin height) :
    p.toSurface.pixel x y = p.pixel x y :=
  Grid.get_transpose p.rows x y

end Picture

namespace Surface

variable {width height : Nat}

/-- Magnified `s` times, each position takes up `s` places. -/
theorem nearest_mul {source s : Nat} (h : 0 < source) (i : Fin (source * s)) :
    nearest h i = i.divNat := by
  apply Fin.ext
  show i.val * source / (source * s) = i.val / s
  rw [Nat.mul_comm i.val source, Nat.mul_div_mul_left _ _ h]

theorem length_scaledRow (s : Surface width height) (hwidth : 0 < width) (hheight : 0 < height)
    {w h : Nat} (y : Fin h) :
    ((List.finRange w).map fun x => s.scaledPixel hwidth hheight x y).length = w := by
  rw [List.length_map, List.length_finRange]

theorem length_scaledPixels (s : Surface width height) (hwidth : 0 < width) (hheight : 0 < height)
    (w h : Nat) : (s.scaledPixels hwidth hheight w h).length = w * h := by
  simp only [scaledPixels, List.length_flatMap, length_scaledRow]
  rw [List.map_const', List.sum_replicate_nat, List.length_finRange, Nat.mul_comm]

theorem getElem?_scaledPixels (s : Surface width height) (hwidth : 0 < width)
    (hheight : 0 < height) {w h : Nat} (x : Fin w) (y : Fin h) :
    (s.scaledPixels hwidth hheight w h)[w * y + x]? = some (s.scaledPixel hwidth hheight x y) := by
  rw [scaledPixels, getElem?_flatMap_of_length (s.length_scaledRow hwidth hheight) _ _ x.isLt]
  simp

end Surface

namespace Window

variable {σ : Type}

/-- The pixels of a window that is a whole multiple of the display, as soon as it is presented. -/
theorem pixels_present (w : Window σ) {s t : Nat} (hsize : w.size = ⟨64 * s, 32 * t⟩) :
    w.present.pixels.length = 64 * s * (32 * t) ∧
    ∀ (x : Fin (64 * s)) (y : Fin (32 * t)),
      w.present.pixels[64 * s * y + x]? =
        some ((Picture.ofDisplay w.palette w.machine.display).pixel x.divNat y.divNat) := by
  have hpixels : w.present.pixels =
      (Picture.ofDisplay w.palette w.machine.display).toSurface.scaledPixels (by decide) (by decide)
        w.size.width w.size.height := rfl
  rw [hpixels, hsize]
  refine ⟨Surface.length_scaledPixels _ _ _ _ _, fun x y => ?_⟩
  rw [Surface.getElem?_scaledPixels, Surface.scaledPixel, Surface.nearest_mul, Surface.nearest_mul,
    Picture.pixel_toSurface]

end Window

/--
**What a window shows is the display.** However often the colours have been set, the pixel of a
picture at `(x, y)` has the low 24 bits of the last foreground if the cell there is lit, and of the
last background if not. The surface has the same colour at the same place, and a window of `64 * s`
by `32 * t` pixels that presents the picture has at `(x, y)` the colour of the cell
`(x / s, y / t)`. In two different colours no two displays give the same picture.
-/
theorem Picture.shows_display {σ : Type} (p : Palette) (settings : List (Int × Int)) :
    let q := p.setAll settings
    let colours := settings.getLastD (p.foreground, p.background)
    (∀ d x y, ((ofDisplay q d).pixel x y).code =
        (if d.lit x y = true then colours.1 else colours.2) % 0x1000000 ∧
      (ofDisplay q d).toSurface.pixel x y = (ofDisplay q d).pixel x y) ∧
    (∀ (w : Window σ) (s t : Nat), w.palette = q → w.size = ⟨64 * s, 32 * t⟩ →
      w.present.pixels.length = 64 * s * (32 * t) ∧
      ∀ (x : Fin (64 * s)) (y : Fin (32 * t)),
        w.present.pixels[64 * s * y + x]? =
          some ((ofDisplay q w.machine.display).pixel x.divNat y.divNat)) ∧
    (colours.1 % 0x1000000 ≠ colours.2 % 0x1000000 → ∀ m m' : Machine σ,
      ofDisplay q m.display = ofDisplay q m'.display → m.display = m'.display) := by
  intro q colours
  have hq : q = ⟨colours.1, colours.2⟩ := p.setAll_eq settings
  refine ⟨fun d x y => ⟨?_, pixel_toSurface _ x y⟩, fun w s t hpalette hsize => ?_,
    fun hcolours m m' => ?_⟩
  · rw [pixel_ofDisplay, Palette.colour_eq, Rgb.code_ofInt, hq]
  · rw [← hpalette]
    exact w.pixels_present hsize
  · have hdiffer : q.foreground % 0x1000000 ≠ q.background % 0x1000000 := by
      rw [hq]
      exact hcolours
    exact (ofDisplay_inj (Palette.colour_ne hdiffer)).mp

/-- The cell in the upper right corner is lit, in colours that are numbers of more than 24 bits and
had been equal before. A window of twice the width and three times the height shows it three pixels
deep. -/
theorem Picture.shows_display_corner :
    let settings := [(0x336699, 0x336699), (-0xCC009A, 0x5000010)]
    let q := Palette.standard.setAll settings
    let m := Machine.new ⟨[0x12, 0x00], by decide⟩ ⟨60, by decide⟩ (RepeatingBytes.ofList [])
    let m' := { m with display := (m.display.xorPixel ⟨63, 0, true⟩).1 }
    let w := { Window.new m' 1 none .silent with palette := q, size := ⟨128, 96⟩ }
    (w.palette = q ∧ w.size = ⟨64 * 2, 32 * 3⟩ ∧
      (-0xCC009A : Int) % 0x1000000 ≠ 0x5000010 % 0x1000000) ∧
    (∃ c, w.present.pixels[383]? = some c ∧ c.code = 0x33FF66) ∧
    (∃ c, w.present.pixels[511]? = some c ∧ c.code = 0x10) ∧
    ofDisplay q m.display ≠ ofDisplay q m'.display := by
  intro settings q m m' w
  obtain ⟨hcolours, hwindow, hread⟩ := shows_display (σ := RepeatingBytes) .standard settings
  obtain ⟨-, hpixels⟩ := hwindow w 2 3 rfl rfl
  have hdiffer : (-0xCC009A : Int) % 0x1000000 ≠ 0x5000010 % 0x1000000 := by decide
  have hlit : m'.display.lit 63 0 = true ∧ m'.display.lit 63 1 = false ∧
      m.display.lit 63 0 = false := by
    decide +kernel
  obtain ⟨hlit, hunlit, hdark⟩ := hlit
  refine ⟨⟨rfl, rfl, hdiffer⟩, ⟨_, hpixels 127 2, ?_⟩, ⟨_, hpixels 127 3, ?_⟩, fun hsame => ?_⟩
  · obtain ⟨hcode, -⟩ := hcolours m'.display 63 0
    rw [if_pos hlit] at hcode
    exact Int.ofNat_inj.mp hcode
  · obtain ⟨hcode, -⟩ := hcolours m'.display 63 1
    rw [if_neg (Bool.eq_false_iff.mp hunlit)] at hcode
    exact Int.ofNat_inj.mp hcode
  · have hdisplay := hread hdiffer m m' hsame
    rw [hdisplay, hlit] at hdark
    cases hdark

end ChipEight
