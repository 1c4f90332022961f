import ChipEight.Proofs.Faults

/-!
# Instructions, effect by effect

`execute` gives the machine after an instruction or a cause, and so cannot leave an instruction
half done. Here the same instructions are carried out on the machine in place: `pc` has moved on
before the instruction is looked at, every register, byte and pixel is written on its own, and a
refusal stops the work wherever it is. The two agree (`carryOut_ahead`, `stepByEffects_eq`), which
is to say that every check of every instruction comes before its first effect, and that none of
its single accesses can fail once the check has passed.
-/

namespace ChipEight

/-- Work on a machine. A refusal ends it and undoes nothing. -/
abbrev Work (σ α : Type) := EStateM Cause (Machine σ) α

namespace Work

variable {σ : Type}

def register (x : Register) : Work σ UInt8 := return (← get).register x

def setRegister (x : Register) (b : UInt8) : Work σ Unit :=
  modify fun m => { m with registers := (m.setRegister x b).registers }

def setIndex (a : Nat) : Work σ Unit := modify fun m => { m with index := a }

def goTo (a : Nat) : Work σ Unit := modify fun m => { m with pc := a }

/-- An access to memory. -/
def reach {α : Type} (access : Except MemoryError α) : Work σ α :=
  match Machine.reaching access with
  | .ok a => pure a
  | .error cause => throw cause

def readByte (addr : Nat) : Work σ UInt8 := do
  reach ((← get).memory.read addr)

def writeByte (addr : Nat) (value : Int) : Work σ Unit := do
  let memory ← reach ((← get).memory.write addr value)
  modify fun m => { m with memory := memory }

/-- Writes the first registers in turn, their values given. -/
def writeBytes (addr : Nat) : List UInt8 → Work σ Unit
  | [] => return ()
  | b :: bs => do
    writeByte addr b.toNat
    writeBytes (addr + 1) bs

/-- Reads registers in turn, each from its place behind `addr`. -/
def readRegisters (addr : Nat) : List Register → Work σ Unit
  | [] => return ()
  | r :: rs => do
    setRegister r (← readByte (addr + r))
    readRegisters addr rs

/-- Toggles one pixel; the answer says that it turned a lit cell off. -/
def toggle (p : Pixel) : Work σ Bool := do
  let (display, off) := (← get).display.xorPixel p
  modify fun m => { m with display := display }
  return off

/-- Toggles pixels in turn; the answer says that one of them turned a lit cell off. -/
def toggleAll : List Pixel → Work σ Bool
  | [] => return false
  | p :: ps => do
    let off ← toggle p
    return off || (← toggleAll ps)

/-! ## Single effects that cannot fail -/

theorem bind_of_ok {α β : Type} {x : Work σ α} {f : α → Work σ β} {m m' : Machine σ} {a : α}
    (h : x m = .ok a m') : (x >>= f) m = f a m' := by
  show EStateM.bind x f m = _
  rw [EStateM.bind, h]

theorem bind_of_error {α β : Type} {x : Work σ α} {f : α → Work σ β} {m m' : Machine σ}
    {cause : Cause} (h : x m = .error cause m') : (x >>= f) m = .error cause m' := by
  show EStateM.bind x f m = _
  rw [EStateM.bind, h]

/-- Work behind an access is only done if the access is granted. -/
theorem bind_reach {α β : Type} {access : Except MemoryError α} {p : Prop} [Decidable p] {a : α}
    (h : Machine.reaching access = if p then .ok a else .error .memoryAccess)
    (rest : α → Work σ β) (m : Machine σ) :
    (reach access >>= rest) m = if p then rest a m else .error .memoryAccess m := by
  rw [reach, h]
  by_cases hp : p
  · rw [if_pos hp, if_pos hp]
    rfl
  · rw [if_neg hp, if_neg hp]
    rfl

theorem writeByte_of_lt (m : Machine σ) {addr : Nat} (h : addr < 4096) (value : Int) :
    writeByte addr value m =
      .ok () { m with memory := m.memory.put addr (UInt8.ofInt value) } := by
  have hw : m.memory.write addr value = .ok (m.memory.put addr (UInt8.ofInt value)) :=
    m.memory.write_of_isAddress (Memory.isAddress_natCast.mpr h) value
  show EStateM.bind (reach (m.memory.write addr value)) (fun _ => _) m = _
  rw [hw]
  rfl

theorem readByte_of_lt (m : Machine σ) {addr : Nat} (h : addr < 4096) :
    readByte addr m = .ok (m.memory.byte addr) m := by
  have hr : m.memory.read addr = .ok (m.memory.byte addr) :=
    m.memory.read_of_isAddress (Memory.isAddress_natCast.mpr h)
  show reach (m.memory.read addr) m = _
  rw [hr]
  rfl

/-- A byte written as a number is that byte. -/
theorem ofInt_toNat (b : UInt8) : UInt8.ofInt b.toNat = b := by
  have hlt := b.toNat_lt
  have hbyte := toNat_ofInt b.toNat
  exact UInt8.toNat_inj.mp (by omega)

theorem decimalDigits_eq (b : UInt8) :
    decimalDigits b = [UInt8.ofInt (b.toNat / 100 : Nat), UInt8.ofInt (b.toNat / 10 % 10 : Nat),
      UInt8.ofInt (b.toNat % 10 : Nat)] := by
  obtain ⟨h₁, h₂, h₃⟩ := toNat_digits b
  rw [decimalDigits, ← h₁, ← h₂, ← h₃, ofInt_toNat, ofInt_toNat, ofInt_toNat]

/-! ## Work in turn -/

theorem writeBytes_of_le (m : Machine σ) {addr : Nat} {bs : List UInt8}
    (h : addr + bs.length ≤ 4096) :
    writeBytes addr bs m = .ok () { m with memory := m.memory.putAll addr bs } := by
  induction bs generalizing m addr with
  | nil => rfl
  | cons b bs ih =>
    rw [List.length_cons] at h
    rw [writeBytes, bind_of_ok (writeByte_of_lt m (by omega) _), ofInt_toNat, ih _ (by omega)]
    rfl

theorem toggleAll_eq (m : Machine σ) (ps : List Pixel) :
    toggleAll ps m =
      .ok ((m.display.xorPixels ps).2 != 0) { m with display := (m.display.xorPixels ps).1 } := by
  induction ps generalizing m with
  | nil => rfl
  | cons p ps ih =>
    have ht : toggle p m = .ok (m.display.xorPixel p).2
        { m with display := (m.display.xorPixel p).1 } := rfl
    rw [toggleAll, bind_of_ok ht, bind_of_ok (ih _)]
    show EStateM.Result.ok ((m.display.xorPixel p).2 ||
      (((m.display.xorPixel p).1.xorPixels ps).2 != 0)) _ = _
    rw [Display.xorPixels]
    congr 1
    cases hoff : (m.display.xorPixel p).2 <;> simp [hoff]

/-- The first registers, up to one of them. -/
theorem mem_take_finRange (x r : Register) : r ∈ (List.finRange 16).take (x + 1) ↔ r ≤ x := by
  revert x r
  decide

theorem readRegisters_of_lt (m : Machine σ) {addr : Nat} {rs : List Register}
    (h : ∀ r ∈ rs, addr + r.val < 4096) :
    ∃ registers, readRegisters addr rs m = .ok () { m with registers := registers } ∧
      (∀ k ∈ rs, registers.get k = m.memory.byte (addr + k)) ∧
      ∀ k, k ∉ rs → registers.get k = m.register k := by
  induction rs generalizing m with
  | nil => exact ⟨m.registers, rfl, by simp, fun k _ => rfl⟩
  | cons r rs ih =>
    have hr := h r List.mem_cons_self
    obtain ⟨registers, hrun, hread, hkept⟩ :=
      ih { m with registers := (m.setRegister r (m.memory.byte (addr + r))).registers }
        fun q hq => h q (List.mem_cons_of_mem r hq)
    have hset := m.register_setRegister r (m.memory.byte (addr + r))
    refine ⟨registers, ?_, fun k hk => ?_, fun k hk => ?_⟩
    · rw [readRegisters, bind_of_ok (readByte_of_lt m hr)]
      exact hrun
    · by_cases hkrs : k ∈ rs
      · exact hread k hkrs
      · obtain rfl : k = r := (List.mem_cons.mp hk).resolve_right hkrs
        exact (hkept k hkrs).trans ((hset k).trans (if_pos rfl))
    · obtain ⟨hkr, hkrs⟩ := not_or.mp (mt List.mem_cons.mpr hk)
      exact (hkept k hkrs).trans ((hset k).trans (if_neg hkr))

variable [RandomSource σ]

def randomByte : Work σ UInt8 := do
  let (b, source) := RandomSource.next (← get).source
  modify fun m => { m with source := source }
  return b

/-- Carries out an instruction, with `pc` behind it. -/
def carryOut : Instruction → Work σ Unit
  | .clear => modify fun m => { m with display := .blank }
  | .ret => do
    match (← get).stack with
    | [] => throw .stackUnderflow
    | a :: rest =>
      modify fun m => { m with stack := rest }
      goTo a
  | .jump a => goTo a
  | .call a => do
    if stackDepth ≤ (← get).stack.length then
      throw .stackOverflow
    modify fun m => { m with stack := m.pc :: m.stack }
    goTo a
  | .jumpOffset a => do goTo (a + (← register 0).toNat)
  | .skip c => do
    let m ← get
    if m.holds c then
      goTo (m.pc + 2)
  | .setByte x b => setRegister x (UInt8.ofNat b)
  | .addByte x b => do setRegister x ((← register x) + UInt8.ofNat b)
  | .compute op x y => do
    let a ← register x
    let b ← register y
    setRegister x (op.result a b)
    match op.flag? a b with
    | some bit => setRegister flagRegister (flag bit)
    | none => return ()
  | .setIndex a => setIndex a
  | .addIndex x => do
    let total := (← get).index + (← register x).toNat
    if Memory.size ≤ total then
      setIndex (total % Memory.size)
      setRegister flagRegister 1
    else
      setIndex total
  | .glyph x => do setIndex (Font.glyphAddress (← register x).toNat).toNat
  | .random x mask => do setRegister x ((← randomByte) &&& UInt8.ofNat mask)
  | .draw x y rows => do
    let m ← get
    let sprite ← reach (m.memory.readBlock m.index rows.val)
    let collision ←
      toggleAll (Display.spritePixels (m.register x).toNat (m.register y).toNat sprite)
    setRegister flagRegister (flag collision)
  | .readDelay x => do setRegister x (UInt8.ofInt (← get).timers.delay)
  | .awaitRelease x => do
    match (← get).keypad.released with
    | some key => setRegister x (UInt8.ofNat key)
    | none => goTo ((← get).pc - 2)
  | .setDelay x =>
    modify fun m => { m with timers := { m.timers with delay := (m.register x).toNat } }
  | .setSound x =>
    modify fun m => { m with timers := { m.timers with sound := (m.register x).toNat } }
  | .storeDecimal x => do
    let m ← get
    let value := (m.register x).toNat
    reach (Memory.checkRange m.index 3)
    writeByte m.index (value / 100 : Nat)
    writeByte (m.index + 1) (value / 10 % 10 : Nat)
    writeByte (m.index + 2) (value % 10 : Nat)
  | .store x => do
    let m ← get
    reach (Memory.checkRange m.index (x.val + 1))
    writeBytes m.index (m.registers.toList.take (x + 1))
  | .restore x => do
    let m ← get
    reach (Memory.checkRange m.index (x.val + 1))
    readRegisters m.index ((List.finRange 16).take (x + 1))

end Work

namespace Machine

variable {σ : Type} [RandomSource σ]

/-- The machine with `pc` on the next word. -/
def ahead (m : Machine σ) : Machine σ := { m with pc := m.pc + 2 }

end Machine

namespace Work

open Machine

variable {σ : Type} [RandomSource σ]

/-- **Carrying out an instruction is executing it.** A refused one leaves the machine as it found
it, with `pc` ahead. -/
theorem carryOut_ahead (m : Machine σ) (i : Instruction) :
    carryOut i m.ahead =
      match m.execute i with
      | .ok m' => .ok () m'
      | .error cause => .error cause m.ahead := by
  -- most instructions only look at what `pc` does not touch, and both sides compute
  cases i with
  | ret =>
    cases m with | mk _ _ _ _ _ _ _ _ stack =>
    cases stack <;> rfl
  | call a =>
    rw [execute]
    show (if stackDepth ≤ m.stack.length then _ else _ : Work σ Unit) m.ahead = _
    by_cases h : m.stack.length < stackDepth
    · rw [if_neg (Nat.not_le.mpr h), if_pos h]
      rfl
    · rw [if_pos (Nat.not_lt.mp h), if_neg h]
      rfl
  | skip c =>
    rw [execute]
    show (if m.ahead.holds c then goTo (m.pc + 2 + 2) else pure ()) m.ahead = _
    have hc : m.ahead.holds c = m.holds c := by cases c <;> rfl
    rw [hc]
    by_cases h : m.holds c
    · rw [if_pos h, if_pos h]
      rfl
    · rw [if_neg h, if_neg h]
      rfl
  | compute op x y => cases op <;> rfl
  | addIndex x =>
    rw [execute]
    show (if Memory.size ≤ m.index + (m.register x).toNat then _ else _ : Work σ Unit) m.ahead = _
    dsimp only
    by_cases h : Memory.size ≤ m.index + (m.register x).toNat
    · rw [if_pos h, if_pos h]
      rfl
    · rw [if_neg h, if_neg h]
      rfl
  | draw x y n =>
    rw [execute_draw]
    refine (bind_reach (reaching_readBlock m.memory m.index n) _ m.ahead).trans ?_
    by_cases h : Memory.Fits m.index n
    · rw [if_pos h, if_pos h, bind_of_ok (toggleAll_eq _ _)]
      rfl
    · rw [if_neg h, if_neg h]
  | awaitRelease x =>
    cases m with | mk _ _ _ keypad =>
    cases keypad with | mk _ released =>
    cases released <;> rfl
  | storeDecimal x =>
    rw [execute_storeDecimal]
    refine (bind_reach (reaching_checkRange m.index 3) _ m.ahead).trans ?_
    by_cases h : Memory.Fits m.index 3
    · have hfits : m.ahead.index + 3 ≤ 4096 := h.resolve_left (by omega)
      -- the three writes are covered by the one check
      rw [if_pos h, if_pos h, bind_of_ok (writeByte_of_lt m.ahead (by omega) _),
        bind_of_ok (writeByte_of_lt _ (by omega) _), writeByte_of_lt _ (by omega),
        decimalDigits_eq]
      rfl
    · rw [if_neg h, if_neg h]
  | store x =>
    rw [execute_store]
    refine (bind_reach (reaching_checkRange m.index (x + 1)) _ m.ahead).trans ?_
    by_cases h : Memory.Fits m.index (x + 1)
    · rw [if_pos h, if_pos h]
      have hfits : m.ahead.index + (x + 1) ≤ 4096 := h.resolve_left (by omega)
      have hlen : (m.ahead.registers.toList.take (x + 1)).length ≤ x + 1 :=
        List.length_take_le _ _
      exact writeBytes_of_le m.ahead (by omega)
    · rw [if_neg h, if_neg h]
  | restore x =>
    rw [execute_restore]
    refine (bind_reach (reaching_checkRange m.index (x + 1)) _ m.ahead).trans ?_
    by_cases h : Memory.Fits m.index (x + 1)
    · have hfits : m.ahead.index + (x + 1) ≤ 4096 := h.resolve_left (by omega)
      have hread : ∀ r ∈ (List.finRange 16).take (x + 1), m.ahead.index + r.val < 4096 := by
        intro r hr
        have := Fin.le_def.mp ((mem_take_finRange x r).mp hr)
        omega
      obtain ⟨registers, hrun, hfirst, hrest⟩ := readRegisters_of_lt m.ahead hread
      -- read one after the other, the registers are what `restored` makes of them at once
      have hall : registers = m.restored x := by
        apply Vector.ext
        intro k hk
        rw [restored, Vector.getElem_ofFn]
        by_cases hkx : (⟨k, hk⟩ : Register) ≤ x
        · rw [if_pos hkx]
          exact hfirst ⟨k, hk⟩ ((mem_take_finRange x _).mpr hkx)
        · rw [if_neg hkx]
          exact hrest ⟨k, hk⟩ (mt (mem_take_finRange x _).mp hkx)
      rw [if_pos h, if_pos h, hrun, hall]
      rfl
    · rw [if_neg h, if_neg h]
  | _ => rfl

/-- Decodes a word and carries it out; the answer says whether it draws. -/
def attempt (word : Nat) : Work σ Bool :=
  match Instruction.decode? word with
  | none => throw .unimplemented
  | some i => do
    carryOut i
    return i.draws

end Work

namespace Machine

variable {σ : Type} [RandomSource σ]

/-- Fetches a word, moves `pc` on and carries the word out; if that fails, `pc` is put back. -/
def cycleByEffects (m : Machine σ) : Machine σ × Except Fault Bool :=
  match m.memory.fetchWord m.pc with
  | .error _ => (m, .error ⟨.memoryAccess, none, m.pc⟩)
  | .ok word =>
    match Work.attempt word m.ahead with
    | .ok redraw m' => (m', .ok redraw)
    | .error cause m' => ({ m' with pc := m.pc }, .error ⟨cause, some word, m.pc⟩)

/-- A step in place. The slot of the key released last is emptied in any case. -/
def stepByEffects (m : Machine σ) : Machine σ × Except Fault Bool :=
  match m.fault with
  | some f => (m, .error f)
  | none =>
    let (m', outcome) := m.tick.cycleByEffects
    let m' := { m' with keypad := m'.keypad.consume }
    match outcome with
    | .ok redraw => ({ m' with steps := m'.steps + 1 }, .ok redraw)
    | .error f => ({ m' with fault := some f }, .error f)

theorem cycleByEffects_eq (m : Machine σ) :
    m.cycleByEffects = match m.cycle with
      | .ok (m', redraw) => (m', .ok redraw)
      | .error f => (m, .error f) := by
  rw [cycleByEffects, cycle]
  cases m.memory.fetchWord m.pc with
  | error e => rfl
  | ok word =>
    dsimp only
    rw [Work.attempt]
    cases Instruction.decode? word with
    | none => rfl
    | some i =>
      have hrun := Work.carryOut_ahead m i
      dsimp only
      cases he : m.execute i with
      | error cause =>
        rw [he] at hrun
        rw [Work.bind_of_error hrun]
        -- what is put back is all that had moved
        rfl
      | ok m' =>
        rw [he] at hrun
        rw [Work.bind_of_ok hrun]
        rfl

/-- **The two accounts of a step agree.** -/
theorem stepByEffects_eq (m : Machine σ) : m.stepByEffects = m.step := by
  rw [stepByEffects, step]
  cases m.fault with
  | some f => rfl
  | none =>
    dsimp only
    rw [cycleByEffects_eq]
    cases m.tick.cycle with
    | error f => rfl
    | ok r => rfl

/--
**What a fault leaves.** A machine that faults has ticked its timers, emptied the slot of the key
released last and kept the fault. Nothing else has changed, even if the faulting instruction
takes its effects one by one.
-/
theorem fault_leaves_machine {m : Machine σ} (hm : m.fault = none) {f : Fault}
    (hf : m.step.2 = .error f) :
    let left := { m with
      timers := m.timers.tick.1
      keypad := { m.keypad with released := none }
      fault := some f }
    m.step = (left, .error f) ∧ m.stepByEffects = (left, .error f) := by
  have hstep : m.step =
      ({ m.tick with keypad := m.keypad.consume, fault := some f }, .error f) :=
    step_of_cycle_error hm ((step_snd_error_iff hm f).mp hf)
  exact ⟨hstep, m.stepByEffects_eq.trans hstep⟩

/-- Sixteen registers do not fit at 0xFF8. Eight of them would, and not even these are written. -/
theorem fault_leaves_store_at_end :
    let m := (holding ⟨[0xAF, 0xF8, 0xFF, 0x55], by decide⟩).after [.step]
    Reachable m ∧ m.fault = none ∧
      m.step.2 = .error ⟨.memoryAccess, some 0xFF55, 0x202⟩ ∧
      m.stepByEffects.1.memory = m.memory ∧ m.stepByEffects.1.pc = 0x202 := by
  intro m
  obtain ⟨hm, hdepth, hcycle, hpc⟩ : m.fault = none ∧ m.tick.stack.length ≤ 16 ∧
      (m.tick.pc ≤ 0xFFE ∧ m.tick.Refuses m.tick.word .memoryAccess ∧
        (⟨.memoryAccess, some 0xFF55, 0x202⟩ : Fault) =
          ⟨.memoryAccess, some m.tick.word, m.tick.pc⟩) ∧ m.pc = 0x202 := by
    decide +kernel
  have hf : m.step.2 = .error ⟨.memoryAccess, some 0xFF55, 0x202⟩ :=
    (step_snd_error_iff hm _).mpr ((cycle_error_iff hdepth _).mpr (.inr hcycle))
  obtain ⟨-, hleft⟩ := fault_leaves_machine hm hf
  have hback : m.stepByEffects.1.pc = m.pc := by rw [hleft]
  refine ⟨reachable_after (.new _ _ _) _, hm, hf, ?_, hback.trans hpc⟩
  rw [hleft]

end Machine

end ChipEight
