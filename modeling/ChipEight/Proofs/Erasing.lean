import ChipEight.Proofs.Freshness

/-!
# Drawing twice erases

A sprite is drawn by flipping cells, so the same sprite drawn again in the same place takes itself
off the screen. What makes it the same is what `covers` looks at: the coordinates as far as the
screen does not wrap them, and the bytes at the index (`SameSprite`). The registers, the index and
the addresses may all be others. In between a program may do anything that leaves the display
alone, which is everything but clearing and drawing (`display_of_plain`); so the second draw finds
the display that the first one left, and its collisions are the cells that were dark before.
-/

namespace ChipEight.Machine

variable {σ : Type}

/-- Drawing at `m'`, with the coordinates in `x'` and `y'`, draws what drawing at `m` does with those
in `x` and `y`. -/
structure SameSprite (m m' : Machine σ) (x y x' y' : Register) (n : Nat) : Prop where
  column : (m'.register x').toNat % 64 = (m.register x).toNat % 64
  row : (m'.register y').toNat % 32 = (m.register y).toNat % 32
  bytes : ∀ k < n, m'.memory.byte (m'.index + k) = m.memory.byte (m.index + k)

/-- **The same sprite covers the same cells.** -/
theorem SameSprite.covers {m m' : Machine σ} {x y x' y' : Register} {n : Nat}
    (h : SameSprite m m' x y x' y' n) (cx : Fin 64) (cy : Fin 32) :
    m'.covers x' y' n cx cy = m.covers x y n cx cy := by
  have hdx : ((cx - (m'.register x').toNat : Int) % 64).toNat =
      ((cx - (m.register x).toNat : Int) % 64).toNat := by
    have := h.column
    omega
  have hdy : ((cy - (m'.register y').toNat : Int) % 32).toNat =
      ((cy - (m.register y).toNat : Int) % 32).toNat := by
    have := h.row
    omega
  unfold Machine.covers
  dsimp only
  rw [hdx, hdy]
  by_cases hrow : ((cy - (m.register y).toNat : Int) % 32).toNat < n
  · rw [h.bytes _ hrow]
  · -- a row that the sprite does not have may hold anything
    rw [decide_eq_false hrow, Bool.and_false, Bool.false_and, Bool.false_and]

theorem exists_bit_of_ne_zero {b : UInt8} (hb : b ≠ 0) : ∃ c < 8, b.toNat.testBit (7 - c) := by
  have hne : b.toNat ≠ 0 := fun h => hb (UInt8.toNat_inj.mp h)
  obtain ⟨i, hi⟩ := Nat.exists_testBit_of_ne_zero hne
  have hle := Nat.ge_two_pow_of_testBit hi
  have hlt : i < 8 := by
    refine (Nat.pow_lt_pow_iff_right (by decide : 1 < 2)).mp ?_
    exact Nat.lt_of_le_of_lt hle b.toNat_lt
  refine ⟨7 - i, by omega, ?_⟩
  rwa [show 7 - (7 - i) = i by omega]

/-- A sprite with a set bit covers some cell, wherever it is drawn. -/
theorem exists_covered (m : Machine σ) (x y : Register) {n k : Nat} (hn : n ≤ 32) (hk : k < n)
    (hb : m.memory.byte (m.index + k) ≠ 0) : ∃ cx cy, m.covers x y n cx cy := by
  obtain ⟨c, hc, hbit⟩ := exists_bit_of_ne_zero hb
  refine ⟨Display.column ((m.register x).toNat + c), Display.row ((m.register y).toNat + k), ?_⟩
  have hdx := (Display.column_add_eq_iff (x := (m.register x).toNat) (c := c) (by omega)).mp rfl
  have hdy := (Display.row_add_eq_iff (y := (m.register y).toNat) (r := k) (by omega)).mp rfl
  unfold covers
  dsimp only
  rw [hdx, hdy, decide_eq_true hc, decide_eq_true hk, hbit]
  rfl

theorem plain_of_word {m : Machine σ} {w : Nat} (hw : m.word = w) (hdraws : w / 0x1000 ≠ 0xD)
    (hclears : w ≠ 0x00E0) : ¬ m.Draws ∧ ¬ m.Clears := by
  subst hw
  refine ⟨?_, fun h => hclears h.2⟩
  rintro ⟨x, y, r, -, h⟩
  omega

variable [RandomSource σ]

/-- **A step that neither draws nor clears** leaves the display alone. -/
theorem display_of_plain {m : Machine σ} (hm : m.fault = none) (hdraws : ¬ m.Draws)
    (hclears : ¬ m.Clears) : m.step.1.display = m.display := by
  rcases step_outcome hm with ⟨f, hs⟩ | ⟨i, m', hi, ho, hs⟩
  · rw [hs]
    rfl
  · rw [hs]
    cases ho with
    | clear => exact absurd hi hclears
    | draw x y rows => exact absurd ⟨x, y, rows, hi⟩ hdraws
    | _ => rfl

/--
**Drawing the same sprite again erases it**, wherever in a run the second draw comes, as long as
the display is left alone since the first. Every cell is then as it was before the first draw, and
the flag register says whether any cell under the sprite was dark at that time. On a dark screen the
first draw so reports nothing, and the second one reports a collision. The run may begin in any
state, so what came before the first draw, and what comes after the second, does not matter.
-/
theorem second_draw_erases {m₀ : Machine σ} {calls : List HostCall} (hreset : .reset ∉ calls)
    {early mid later : List (Machine σ)} {m m' : Machine σ}
    (hrun : m₀.stepped calls = early ++ m :: (mid ++ m' :: later))
    {x y x' y' : Register} {n : Fin 16}
    (hw : m.AtWord (0xD000 + 256 * x + 16 * y + n)) (hok : m.step.2 = .ok true)
    (hw' : m'.AtWord (0xD000 + 256 * x' + 16 * y' + n)) (hok' : m'.step.2 = .ok true)
    (hmid : ∀ e ∈ mid, ¬ e.Draws ∧ ¬ e.Clears) (hsame : SameSprite m m' x y x' y' n) :
    (∀ cx cy, m'.step.1.display.lit cx cy = m.display.lit cx cy) ∧
    m'.step.1.register 0xF =
      (if ∃ cx cy, m.covers x y n cx cy ∧ m.display.lit cx cy = false then 1 else 0) ∧
    ((∀ cx cy, m.display.lit cx cy = false) →
      (∃ k < n.val, m.memory.byte (m.index + k) ≠ 0) →
      m.step.1.register 0xF = 0 ∧ m'.step.1.register 0xF = 1) := by
  have running : ∀ e ∈ early ++ m :: (mid ++ m' :: later), e.fault = none := by
    intro e he
    rw [← hrun] at he
    exact fault_of_mem_stepped he
  have hm : m.fault = none := running m (by simp)
  have hm' : m'.fault = none := running m' (by simp)
  -- the second draw finds what the first one left
  have hfound : m'.display = m.step.1.display := by
    refine kept_between (P := fun e => e.display = m.step.1.display) (fun _ _ h => h)
      (fun _ _ h => h) hreset hrun rfl ?_
    intro e he h
    obtain ⟨hdraws, hclears⟩ := hmid e he
    rw [display_of_plain (running e (by simp [he])) hdraws hclears, h]
  obtain ⟨hcells, hflag⟩ := drawn_of_ok hm hok hw
  obtain ⟨hcells', hflag'⟩ := drawn_of_ok hm' hok' hw'
  simp only [hsame.covers, hfound, hcells] at hcells' hflag'
  have hdark : ∀ {c lit : Bool}, (c = true ∧ (lit != c) = true) ↔ (c = true ∧ lit = false) := by
    decide
  simp only [hdark] at hflag'
  refine ⟨fun cx cy => ?_, hflag', fun hblank hbyte => ⟨?_, ?_⟩⟩
  · rw [hcells' cx cy]
    cases m.display.lit cx cy <;> cases m.covers x y n cx cy <;> rfl
  · rw [hflag]
    apply if_neg
    rintro ⟨cx, cy, -, hlit⟩
    rw [hblank] at hlit
    cases hlit
  · rw [hflag']
    apply if_pos
    obtain ⟨k, hk, hb⟩ := hbyte
    obtain ⟨cx, cy, hcovers⟩ := m.exists_covered x y (by omega) hk hb
    exact ⟨cx, cy, hcovers, hblank cx cy⟩

/-- The glyph of 0 is drawn in the corner, copied by the host to another address, and drawn from
there one screen further to the right and one further down. -/
theorem second_draw_erases_copy :
    ∃ m₀ : Machine RepeatingBytes,
      build (.bytes [0xA0, 0x50, 0xD0, 0x15, 0x62, 0x40, 0x63, 0x20, 0xA3, 0x00, 0xD2, 0x35])
        (.int 700) (.ofList []) = .ok m₀ ∧
      let calls : List HostCall :=
        [.step, .step, .load 0x300 [0xF0, 0x90, 0x90, 0x90, 0xF0], .step, .step, .step, .step]
      ∃ m m' : Machine RepeatingBytes, ∃ mid : List (Machine RepeatingBytes),
        .reset ∉ calls ∧ m₀.stepped calls = [m₀] ++ m :: (mid ++ m' :: []) ∧
        (m.AtWord (0xD000 + 256 * (0x0 : Register) + 16 * (0x1 : Register) + (5 : Fin 16)) ∧
          m.step.2 = .ok true) ∧
        (m'.AtWord (0xD000 + 256 * (0x2 : Register) + 16 * (0x3 : Register) + (5 : Fin 16)) ∧
          m'.step.2 = .ok true) ∧
        (∀ e ∈ mid, ¬ e.Draws ∧ ¬ e.Clears) ∧ SameSprite m m' 0x0 0x1 0x2 0x3 5 ∧
        (∀ cx cy, m'.step.1.display.lit cx cy = false) ∧
        m.step.1.register 0xF = 0 ∧ m'.step.1.register 0xF = 1 := by
  obtain ⟨m₀, hm₀⟩ : ∃ m : Machine RepeatingBytes, m = holding
      ⟨[0xA0, 0x50, 0xD0, 0x15, 0x62, 0x40, 0x63, 0x20, 0xA3, 0x00, 0xD2, 0x35], by decide⟩ :=
    ⟨_, rfl⟩
  have hbuild := build_new
    ⟨[0xA0, 0x50, 0xD0, 0x15, 0x62, 0x40, 0x63, 0x20, 0xA3, 0x00, 0xD2, 0x35], by decide⟩ .default
    (RepeatingBytes.ofList [])
  obtain ⟨m, hm⟩ : ∃ e, e = m₀.step.1 := ⟨_, rfl⟩
  obtain ⟨e₁, he₁⟩ : ∃ e, e = (m.step.1.perform (.load 0x300 [0xF0, 0x90, 0x90, 0x90, 0xF0])).1 :=
    ⟨_, rfl⟩
  obtain ⟨e₂, he₂⟩ : ∃ e, e = e₁.step.1 := ⟨_, rfl⟩
  obtain ⟨e₃, he₃⟩ : ∃ e, e = e₂.step.1 := ⟨_, rfl⟩
  obtain ⟨m', hm'⟩ : ∃ e, e = e₃.step.1 := ⟨_, rfl⟩
  obtain ⟨⟨h₀, h₁, h₂, h₃, h₄, h₅⟩, ⟨hpc, hword, hok⟩, ⟨hpc', hword', hok'⟩, ⟨hw₀, hw₁, hw₂, hw₃⟩,
      ⟨hx, hy, hbytes⟩, hlit⟩ :
      (m₀.fault = none ∧ m.fault = none ∧ e₁.fault = none ∧ e₂.fault = none ∧ e₃.fault = none ∧
        m'.fault = none) ∧
      (m.pc ≤ 0xFFE ∧ m.word = 0xD015 ∧ m.step.2 = .ok true) ∧
      (m'.pc ≤ 0xFFE ∧ m'.word = 0xD235 ∧ m'.step.2 = .ok true) ∧
      (m₀.word = 0xA050 ∧ e₁.word = 0x6240 ∧ e₂.word = 0x6320 ∧ e₃.word = 0xA300) ∧
      ((m'.register 0x2).toNat % 64 = (m.register 0x0).toNat % 64 ∧
        (m'.register 0x3).toNat % 32 = (m.register 0x1).toNat % 32 ∧
        ∀ k < 5, m'.memory.byte (m'.index + k) = m.memory.byte (m.index + k)) ∧
      m.memory.byte (m.index + 0) ≠ 0 := by
    rw [hm', he₃, he₂, he₁, hm, hm₀]
    decide +kernel
  have hdark : ∀ cx cy, m.display.lit cx cy = false := by
    obtain ⟨hdraws, hclears⟩ := plain_of_word hw₀ (by decide) (by decide)
    have hblank : m₀.display = .blank := by
      rw [hm₀]
      rfl
    intro cx cy
    rw [hm, display_of_plain h₀ hdraws hclears, hblank, Display.lit_blank]
  have hreset : HostCall.reset ∉ [HostCall.step, .step,
      .load 0x300 [0xF0, 0x90, 0x90, 0x90, 0xF0], .step, .step, .step, .step] := by
    decide
  have hrun : m₀.stepped [.step, .step, .load 0x300 [0xF0, 0x90, 0x90, 0x90, 0xF0], .step, .step,
      .step, .step] = [m₀] ++ m :: ([e₁, e₂, e₃] ++ m' :: []) := by
    rw [stepped_step h₀, ← hm, stepped_step h₁, stepped_of_not_runs _ rfl, ← he₁,
      stepped_step h₂, ← he₂, stepped_step h₃, ← he₃, stepped_step h₄, ← hm', stepped_step h₅]
    rfl
  have hmid : ∀ e ∈ [e₁, e₂, e₃], ¬ e.Draws ∧ ¬ e.Clears := by
    intro e he
    rcases List.mem_cons.mp he with rfl | he
    · exact plain_of_word hw₁ (by decide) (by decide)
    · rcases List.mem_cons.mp he with rfl | he
      · exact plain_of_word hw₂ (by decide) (by decide)
      · rw [List.mem_singleton.mp he]
        exact plain_of_word hw₃ (by decide) (by decide)
  have hsame : SameSprite m m' 0x0 0x1 0x2 0x3 5 := ⟨hx, hy, hbytes⟩
  have hw : m.AtWord (0xD000 + 256 * (0x0 : Register) + 16 * (0x1 : Register) + (5 : Fin 16)) :=
    ⟨hpc, hword⟩
  have hw' : m'.AtWord (0xD000 + 256 * (0x2 : Register) + 16 * (0x3 : Register) + (5 : Fin 16)) :=
    ⟨hpc', hword'⟩
  obtain ⟨hcells, -, hcollides⟩ := second_draw_erases hreset hrun hw hok hw' hok' hmid hsame
  have hflags := hcollides hdark ⟨0, by decide, hlit⟩
  refine ⟨m₀, hm₀ ▸ hbuild, m, m', [e₁, e₂, e₃], hreset, hrun, ⟨hw, hok⟩, ⟨hw', hok'⟩, hmid, hsame,
    ?_, hflags⟩
  intro cx cy
  rw [hcells, hdark]

end ChipEight.Machine
