import ChipEight.Proofs.Frame

/-!
# Computing with registers

The words that compute, and what they make of the numbers that the registers hold (`Computes`). Both
operands are read before anything is written, so a word may name one register twice, or take the
flag register as an operand. A flag is written last: a result that goes to the flag register is lost
if there is a flag, and only the flag remains (`register_of_computed`). The one word that adds to
the index is apart, since it flags an overflow and leaves the flag register alone otherwise.
-/

namespace ChipEight

namespace Arithmetic

/-- An operation makes `v` of two bytes, and flags `p` if it has a flag. -/
structure Gives (op : Arithmetic) (a b : UInt8) (v : Int) (p : Option Prop) : Prop where
  result : (op.result a b).toNat = v
  plain : p = none → op.flag? a b = none
  flagged : ∀ q, p = some q → ∃ bit, op.flag? a b = some bit ∧ (bit = true ↔ q)

variable {op : Arithmetic} {a b : UInt8} {v : Int}

theorem gives_plain (hresult : (op.result a b).toNat = v) (hflag : op.flag? a b = none) :
    op.Gives a b v none where
  result := hresult
  plain _ := hflag
  flagged := by
    intro q hq
    cases hq

theorem gives_flagged {p : Prop} {bit : Bool} (hresult : (op.result a b).toNat = v)
    (hflag : op.flag? a b = some bit) (hbit : bit = true ↔ p) : op.Gives a b v (some p) where
  result := hresult
  plain := by
    intro hp
    cases hp
  flagged := by
    intro q hq
    cases hq
    exact ⟨bit, hflag, hbit⟩

theorem gives_add : Arithmetic.add.Gives a b ((a.toNat + b.toNat) % 256)
    (some (255 < (a.toNat : Int) + b.toNat)) := by
  refine gives_flagged ?_ rfl ?_
  · have hsum := UInt8.toNat_add a b
    show ((a + b).toNat : Int) = _
    omega
  · rw [decide_eq_true_iff]
    omega

theorem toNat_sub (a b : UInt8) : ((a - b).toNat : Int) = (a.toNat - b.toNat) % 256 := by
  have hdifference := UInt8.toNat_sub a b
  have ha := a.toNat_lt
  have hb := b.toNat_lt
  omega

theorem gives_subtract : Arithmetic.subtract.Gives a b ((a.toNat - b.toNat) % 256)
    (some ((b.toNat : Int) ≤ a.toNat)) := by
  refine gives_flagged (toNat_sub a b) rfl ?_
  rw [decide_eq_true_iff, UInt8.le_iff_toNat_le]
  omega

theorem gives_subtractFrom : Arithmetic.subtractFrom.Gives a b ((b.toNat - a.toNat) % 256)
    (some ((a.toNat : Int) ≤ b.toNat)) := by
  refine gives_flagged (toNat_sub b a) rfl ?_
  rw [decide_eq_true_iff, UInt8.le_iff_toNat_le]
  omega

theorem gives_shiftRight : Arithmetic.shiftRight.Gives a b (b.toNat / 2)
    (some ((b.toNat : Int) % 2 = 1)) := by
  refine gives_flagged ?_ rfl ?_
  · have hhalf : (b >>> 1).toNat = b.toNat / 2 := by
      rw [UInt8.toNat_shiftRight, Nat.shiftRight_eq_div_pow]
      rfl
    show ((b >>> 1).toNat : Int) = _
    omega
  · rw [Nat.testBit_zero, decide_eq_true_iff]
    omega

theorem gives_shiftLeft : Arithmetic.shiftLeft.Gives a b (2 * b.toNat % 256)
    (some ((b.toNat : Int) / 128 = 1)) := by
  refine gives_flagged ?_ rfl ?_
  · have hdouble : (b <<< 1).toNat = b.toNat * 2 % 256 := by
      rw [UInt8.toNat_shiftLeft, Nat.shiftLeft_eq]
      rfl
    show ((b <<< 1).toNat : Int) = _
    omega
  · have hb := b.toNat_lt
    rw [Nat.testBit_eq_decide_div_mod_eq, decide_eq_true_iff]
    omega

end Arithmetic

namespace Machine

open Instruction

variable {σ : Type}

/-- The number in a register. -/
def value (m : Machine σ) (x : Register) : Int := (m.register x).toNat

/-- The words that compute: the register that gets the result, the result, and the condition that is
flagged, if any is. -/
inductive Computes (m : Machine σ) : Nat → Register → Int → Option Prop → Prop where
  | addByte (x : Register) (b : Fin 256) :
    Computes m (0x7000 + 256 * x + b) x ((m.value x + b.val) % 256) none
  | copy (x y : Register) : Computes m (0x8000 + 256 * x + 16 * y + 0x0) x (m.value y) none
  | or (x y : Register) :
    Computes m (0x8000 + 256 * x + 16 * y + 0x1) x
      ((m.register x).toNat ||| (m.register y).toNat : Nat) none
  | and (x y : Register) :
    Computes m (0x8000 + 256 * x + 16 * y + 0x2) x
      ((m.register x).toNat &&& (m.register y).toNat : Nat) none
  | xor (x y : Register) :
    Computes m (0x8000 + 256 * x + 16 * y + 0x3) x
      ((m.register x).toNat ^^^ (m.register y).toNat : Nat) none
  | add (x y : Register) :
    Computes m (0x8000 + 256 * x + 16 * y + 0x4) x ((m.value x + m.value y) % 256)
      (some (255 < m.value x + m.value y))
  | subtract (x y : Register) :
    Computes m (0x8000 + 256 * x + 16 * y + 0x5) x ((m.value x - m.value y) % 256)
      (some (m.value y ≤ m.value x))
  | shiftRight (x y : Register) :
    Computes m (0x8000 + 256 * x + 16 * y + 0x6) x (m.value y / 2) (some (m.value y % 2 = 1))
  | subtractFrom (x y : Register) :
    Computes m (0x8000 + 256 * x + 16 * y + 0x7) x ((m.value y - m.value x) % 256)
      (some (m.value x ≤ m.value y))
  /-- The highest of eight bits is worth 128. -/
  | shiftLeft (x y : Register) :
    Computes m (0x8000 + 256 * x + 16 * y + 0xE) x (2 * m.value y % 256)
      (some (m.value y / 128 = 1))

/-- `n` is what a step of `m` leaves that reaches no further than the registers and the index. -/
structure Beside (m n : Machine σ) : Prop where
  memory : n.memory = m.memory
  display : n.display = m.display
  stack : n.stack = m.stack
  keys : n.keypad.keys = m.keypad.keys
  /-- As behind every step. -/
  released : n.keypad.released = none
  timers : n.timers = m.timers.tick.1
  source : n.source = m.source
  pc : n.pc = m.pc + 2

/-- `n` is what a step of `m` leaves that gives `v` to register `x`, and flags `p`. -/
structure Computed (m n : Machine σ) (x : Register) (v : Int) (p : Option Prop) : Prop where
  /-- A flag takes the place of the result. -/
  result : p = none ∨ x ≠ 0xF → n.value x = v
  flag : ∀ q, p = some q → (q → n.value 0xF = 1) ∧ (¬ q → n.value 0xF = 0)
  others : ∀ r ≠ x, p = none ∨ r ≠ 0xF → n.register r = m.register r
  index : n.index = m.index
  beside : Beside m n

/-- `n` is what a step of `m` leaves that adds register `x` to the index. -/
structure Indexed (m n : Machine σ) (x : Register) : Prop where
  index : n.index = (m.index + m.value x) % 4096
  overflow : 4096 ≤ m.index + m.value x → n.value 0xF = 1
  registers : ∀ r, r ≠ 0xF ∨ m.index + m.value x < 4096 → n.register r = m.register r
  beside : Beside m n

variable {m m' : Machine σ}

/-- **The flag comes last**, behind the result. -/
theorem register_of_computed {op : Arithmetic} {x y : Register}
    (h : m'.registers = m.computed op x y) (r : Register) :
    m'.register r =
      if r = flagRegister ∧ (op.flag? (m.register x) (m.register y)).isSome then
        flag ((op.flag? (m.register x) (m.register y)).getD false)
      else if r = x then op.result (m.register x) (m.register y)
      else m.register r := by
  have hresult := m.register_setRegister x (op.result (m.register x) (m.register y)) r
  rw [register, h, computed]
  cases op.flag? (m.register x) (m.register y) with
  | none =>
    rw [if_neg (by simp)]
    exact hresult
  | some bit =>
    have hflag := register_setRegister
      (m.setRegister x (op.result (m.register x) (m.register y))) flagRegister (flag bit) r
    rw [hresult] at hflag
    simp only [Option.isSome_some, and_true, Option.getD_some]
    exact hflag

theorem Computes.instruction {w : Nat} {x : Register} {v : Int} {p : Option Prop}
    (h : m.Computes w x v p) :
    (∃ b : Fin 256, w = (Instruction.addByte x b).encode ∧ v = (m.value x + b.val) % 256 ∧
      p = none) ∨
    ∃ op y, w = (Instruction.compute op x y).encode ∧
      op.Gives (m.register x) (m.register y) v p := by
  cases h with
  | addByte x b => exact .inl ⟨b, rfl, rfl, rfl⟩
  | copy x y => exact .inr ⟨.copy, y, rfl, Arithmetic.gives_plain rfl rfl⟩
  | or x y =>
    refine .inr ⟨.or, y, rfl, Arithmetic.gives_plain ?_ rfl⟩
    exact congrArg _ (UInt8.toNat_or _ _)
  | and x y =>
    refine .inr ⟨.and, y, rfl, Arithmetic.gives_plain ?_ rfl⟩
    exact congrArg _ (UInt8.toNat_and _ _)
  | xor x y =>
    refine .inr ⟨.xor, y, rfl, Arithmetic.gives_plain ?_ rfl⟩
    exact congrArg _ (UInt8.toNat_xor _ _)
  | add x y => exact .inr ⟨.add, y, rfl, Arithmetic.gives_add⟩
  | subtract x y => exact .inr ⟨.subtract, y, rfl, Arithmetic.gives_subtract⟩
  | shiftRight x y => exact .inr ⟨.shiftRight, y, rfl, Arithmetic.gives_shiftRight⟩
  | subtractFrom x y => exact .inr ⟨.subtractFrom, y, rfl, Arithmetic.gives_subtractFrom⟩
  | shiftLeft x y => exact .inr ⟨.shiftLeft, y, rfl, Arithmetic.gives_shiftLeft⟩

/-- One register is set, and there is no flag. -/
theorem computed_of_set {x : Register} {b : UInt8} {v : Int} (hv : (b.toNat : Int) = v)
    (hregister : ∀ r, m'.register r = if r = x then b else m.register r)
    (hindex : m'.index = m.index) (hbeside : Beside m m') : Computed m m' x v none where
  result := by
    intro _
    rw [value, hregister, if_pos rfl, hv]
  flag := by
    intro q hq
    cases hq
  others := by
    intro r hr _
    rw [hregister, if_neg hr]
  index := hindex
  beside := hbeside

/-- What is computed is what the operation gives. -/
theorem computed_of_gives {op : Arithmetic} {x y : Register} {v : Int} {p : Option Prop}
    (hgives : op.Gives (m.register x) (m.register y) v p)
    (hregisters : m'.registers = m.computed op x y) (hindex : m'.index = m.index)
    (hbeside : Beside m m') : Computed m m' x v p := by
  have hregister := register_of_computed hregisters
  cases p with
  | none =>
    simp only [hgives.plain rfl, Option.isSome_none, Bool.false_eq_true, and_false,
      if_false] at hregister
    exact computed_of_set hgives.result hregister hindex hbeside
  | some q =>
    obtain ⟨bit, hflag, hbit⟩ := hgives.flagged q rfl
    simp only [hflag, Option.isSome_some, and_true, Option.getD_some] at hregister
    constructor
    case result =>
      intro hx
      have hxf : x ≠ flagRegister := hx.resolve_left nofun
      rw [value, hregister, if_neg hxf, if_pos rfl, hgives.result]
    case flag =>
      intro q' hq'
      cases hq'
      have hset : m'.value 0xF = (flag bit).toNat :=
        congrArg (fun b : UInt8 => (b.toNat : Int)) ((hregister flagRegister).trans (if_pos rfl))
      constructor
      · intro hq
        rw [hset, hbit.mpr hq]
        rfl
      · intro hq
        rw [hset, Bool.eq_false_iff.mpr (mt hbit.mp hq)]
        rfl
    case others =>
      intro r hr hrf
      have hrf : r ≠ flagRegister := hrf.resolve_left nofun
      rw [hregister, if_neg hrf, if_neg hr]
    case index => exact hindex
    case beside => exact hbeside

variable [RandomSource σ]

/-- A step that executes an instruction that reaches no further than registers and index. -/
theorem step_inside (hm : m.fault = none) {i : Instruction} (hi : m.AtWord i.encode)
    (hdraws : i.draws = false) {registers : Vector UInt8 16} {index : Nat}
    (he : m.tick.execute i =
      .ok { m.tick with registers := registers, index := index, pc := m.pc + 2 }) :
    m.step.2 = .ok false ∧ m.step.1.registers = registers ∧ m.step.1.index = index ∧
      Beside m m.step.1 := by
  rw [step_of_execute hm hi he, hdraws]
  exact ⟨rfl, rfl, rfl, ⟨rfl, rfl, rfl, rfl, rfl, rfl, rfl, rfl⟩⟩

theorem step_addIndex (hm : m.fault = none) {x : Register} (hw : m.AtWord (0xF01E + 256 * x)) :
    m.step.2 = .ok false ∧ Indexed m m.step.1 x := by
  have hvalue : m.value x = (m.register x).toNat := rfl
  have hi : m.AtWord (Instruction.addIndex x).encode := hw
  by_cases hsum : 4096 ≤ m.index + (m.register x).toNat
  · obtain ⟨hok, hregisters, hindex, hbeside⟩ := step_inside hm hi rfl (if_pos hsum)
    have hregister : ∀ r, m.step.1.register r = if r = 0xF then 1 else m.register r := by
      intro r
      rw [register, hregisters]
      exact m.register_setRegister flagRegister 1 r
    have hwrapped : m.step.1.index = (m.index + (m.register x).toNat) % 4096 := hindex
    refine ⟨hok, ?_, ?_, ?_, hbeside⟩
    · omega
    · intro _
      rw [value, hregister, if_pos rfl]
      rfl
    · intro r hr
      rw [hregister, if_neg (hr.resolve_right (by omega))]
  · obtain ⟨hok, hregisters, hindex, hbeside⟩ := step_inside hm hi rfl (if_neg hsum)
    have hsummed : m.step.1.index = m.index + (m.register x).toNat := hindex
    refine ⟨hok, ?_, ?_, ?_, hbeside⟩
    · omega
    · intro hover
      omega
    · intro r _
      rw [register, hregisters]
      rfl

/--
**What a computing word does.** It is never refused. It gives its result to its register and its flag
to the flag register, in this order, also if these two or the operands are the same register;
the word that adds to the index wraps it and flags nothing but an overflow. No other register, and
nothing besides the registers, is changed.
-/
theorem step_computes (hm : m.fault = none) :
    (∀ {w : Nat} {x : Register} {v : Int} {p : Option Prop}, m.Computes w x v p → m.AtWord w →
      m.step.2 = .ok false ∧ Computed m m.step.1 x v p) ∧
    ∀ x : Register, m.AtWord (0xF01E + 256 * x) →
      m.step.2 = .ok false ∧ Indexed m m.step.1 x := by
  refine ⟨?_, fun x hw => step_addIndex hm hw⟩
  intro w x v p hcomputes hw
  rcases hcomputes.instruction with ⟨b, rfl, rfl, rfl⟩ | ⟨op, y, rfl, hgives⟩
  · obtain ⟨hok, hregisters, hindex, hbeside⟩ := step_inside hm hw rfl rfl
    have hregister : ∀ r, m.step.1.register r =
        if r = x then m.register x + UInt8.ofNat b else m.register r := by
      intro r
      rw [register, hregisters]
      exact m.register_setRegister x _ r
    have hsum : ((m.register x + UInt8.ofNat b).toNat : Int) = (m.value x + b.val) % 256 := by
      have hvalue : m.value x = (m.register x).toNat := rfl
      rw [hvalue, UInt8.toNat_add, UInt8.toNat_ofNat']
      omega
    exact ⟨hok, computed_of_set hsum hregister hindex hbeside⟩
  · obtain ⟨hok, hregisters, hindex, hbeside⟩ := step_inside hm hw rfl rfl
    exact ⟨hok, computed_of_gives hgives hregisters hindex hbeside⟩

/-- The flag register added to itself when it holds 255: of 254 and a carry, it keeps the carry. -/
theorem step_computes_flag_over_result :
    let m := (holding ⟨[0x6F, 0xFF, 0x8F, 0xF4], by decide⟩).after [.step]
    m.fault = none ∧
      m.AtWord (0x8000 + 256 * (0xF : Register) + 16 * (0xF : Register) + 0x4) ∧
      m.Computes (0x8000 + 256 * (0xF : Register) + 16 * (0xF : Register) + 0x4) 0xF
        ((m.value 0xF + m.value 0xF) % 256) (some (255 < m.value 0xF + m.value 0xF)) ∧
      m.value 0xF = 255 ∧ m.step.2 = .ok false ∧ m.step.1.value 0xF = 1 ∧
      m.step.1.register 0x0 = m.register 0x0 ∧ m.step.1.index = m.index := by
  intro m
  obtain ⟨hm, hw, hall⟩ : m.fault = none ∧ (m.pc ≤ 0xFFE ∧ m.word =
      0x8000 + 256 * (0xF : Register) + 16 * (0xF : Register) + 0x4) ∧ m.value 0xF = 255 := by
    decide +kernel
  have hcomputes := Computes.add (m := m) 0xF 0xF
  obtain ⟨hok, hcomputed⟩ := (step_computes hm).1 hcomputes hw
  have hcarry : 255 < m.value 0xF + m.value 0xF := by
    rw [hall]
    decide
  exact ⟨hm, hw, hcomputes, hall, hok, (hcomputed.flag _ rfl).1 hcarry,
    hcomputed.others 0x0 (by decide) (.inr (by decide)), hcomputed.index⟩

end Machine

end ChipEight
