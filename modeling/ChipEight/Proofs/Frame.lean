import ChipEight.Proofs.Countdown
import ChipEight.Proofs.KeyRelease
import ChipEight.Proofs.Words

/-!
# What a step leaves alone

An instruction writes to the places that its word names, and to no others. These places are listed
here by the word at `pc`: registers (`SetsRegister`), the index (`SetsIndex`) and bytes of memory
(`WritesByte`), each list complete, so that whatever is not on it stays (`Framed`). `Inner` collects
what all instructions have in common, the registers, the index and `pc`, so that `execute` is taken
apart once. Over a run memory is what it was at the start, but for the bytes that an executed
instruction has written. A program that rewrites itself is no exception, since every word is looked
at when it is executed.
-/

namespace ChipEight

/-- The words that may lead elsewhere than to the next word. -/
def Instruction.Diverts (w : Nat) : Prop :=
  w = 0x00EE ∨
  w / 0x1000 ∈ [0x1, 0x2, 0x3, 0x4, 0x5, 0x9, 0xB, 0xE] ∨
  w / 0x1000 = 0xF ∧ w % 0x100 = 0x0A

/-- The calls by which a host writes to memory. -/
def HostCall.writesMemory : HostCall → Bool
  | .load .. | .poke .. => true
  | _ => false

theorem HostCall.stores_of_not_writesMemory {c : HostCall} (hc : c.writesMemory = false)
    (b : Memory) : c.stores b = b := by
  cases c with
  | load addr data | poke addr value => cases hc
  | _ => rfl

/-- The instructions that set `pc` themselves. -/
def Instruction.setsPc : Instruction → Bool
  | .ret | .jump _ | .call _ | .jumpOffset _ | .skip _ | .awaitRelease _ => true
  | _ => false

theorem Instruction.diverts_encode {i : Instruction} (h : i.setsPc = true) : Diverts i.encode := by
  cases i with
  | ret => exact .inl rfl
  | skip c =>
    cases c <;>
      simp only [Diverts, encode, Condition.encode, List.mem_cons, List.not_mem_nil, or_false] <;>
      omega
  | jump a | call a | jumpOffset a | awaitRelease x =>
    simp only [Diverts, encode, List.mem_cons, List.not_mem_nil, or_false]
    omega
  | _ => cases h

/-- A byte is its three decimal digits. -/
theorem decimalDigits_value (b : UInt8) :
    ∃ h t o : UInt8, decimalDigits b = [h, t, o] ∧ h.toNat ≤ 9 ∧ t.toNat ≤ 9 ∧ o.toNat ≤ 9 ∧
      100 * h.toNat + 10 * t.toNat + o.toNat = b.toNat := by
  have hb := b.toNat_lt
  obtain ⟨hh, ht, ho⟩ := toNat_digits b
  refine ⟨_, _, _, rfl, ?_⟩
  rw [hh, ht, ho]
  omega

namespace Machine

open Instruction

variable {σ : Type}

/-! ## The places that a word names -/

/-- The word at `pc` may write to a register. -/
inductive SetsRegister (m : Machine σ) : Register → Prop where
  | setByte {x : Register} {b : Fin 256} (h : m.AtWord (0x6000 + 256 * x + b)) : SetsRegister m x
  | addByte {x : Register} {b : Fin 256} (h : m.AtWord (0x7000 + 256 * x + b)) : SetsRegister m x
  | result {x y : Register} {n : Fin 16} (h : m.AtWord (0x8000 + 256 * x + 16 * y + n)) :
    SetsRegister m x
  /-- Five of the arithmetic instructions have a flag. -/
  | carry {x y : Register} {n : Fin 16} (hn : n ∈ [0x4, 0x5, 0x6, 0x7, 0xE])
    (h : m.AtWord (0x8000 + 256 * x + 16 * y + n)) : SetsRegister m 0xF
  | random {x : Register} {b : Fin 256} (h : m.AtWord (0xC000 + 256 * x + b)) : SetsRegister m x
  | collision {x y : Register} {n : Fin 16} (h : m.AtWord (0xD000 + 256 * x + 16 * y + n)) :
    SetsRegister m 0xF
  | delay {x : Register} (h : m.AtWord (0xF007 + 256 * x)) : SetsRegister m x
  | key {x : Register} (h : m.AtWord (0xF00A + 256 * x)) : SetsRegister m x
  /-- A sum that stays in the range of the index leaves the flag as it was. -/
  | overflow {x : Register} (h : m.AtWord (0xF01E + 256 * x))
    (hsum : 4096 ≤ m.index + (m.register x).toNat) : SetsRegister m 0xF
  | restored {x r : Register} (hr : r ≤ x) (h : m.AtWord (0xF065 + 256 * x)) : SetsRegister m r

/-- The word at `pc` may write to the index. -/
inductive SetsIndex (m : Machine σ) : Prop where
  | address {a : Address} (h : m.AtWord (0xA000 + a))
  | sum {x : Register} (h : m.AtWord (0xF01E + 256 * x))
  | glyph {x : Register} (h : m.AtWord (0xF029 + 256 * x))

/-- The word at `pc` writes to a byte of memory. -/
inductive WritesByte (m : Machine σ) (k : Nat) : Prop where
  | digit {x : Register} (h : m.AtWord (0xF033 + 256 * x)) (hfirst : m.index ≤ k)
    (hlast : k ≤ m.index + 2)
  | stored {x : Register} (h : m.AtWord (0xF055 + 256 * x)) (hfirst : m.index ≤ k)
    (hlast : k ≤ m.index + x)

variable {m m' : Machine σ}

/-- `n` is what a step of `m` has left that was not refused, and `redraw` is its answer. -/
structure Framed (m n : Machine σ) (redraw : Bool) : Prop where
  /-- Only two instructions write to memory. -/
  bytes : ∀ k, n.memory.byte k ≠ m.memory.byte k → m.WritesByte k
  /-- One of them writes three decimal digits. -/
  digits : ∀ x : Register, m.AtWord (0xF033 + 256 * x) →
    ∃ h t o : UInt8, h.toNat ≤ 9 ∧ t.toNat ≤ 9 ∧ o.toNat ≤ 9 ∧
      100 * h.toNat + 10 * t.toNat + o.toNat = (m.register x).toNat ∧
      n.memory.byte m.index = h ∧ n.memory.byte (m.index + 1) = t ∧
      n.memory.byte (m.index + 2) = o
  /-- The other one writes registers. -/
  stored : ∀ x : Register, m.AtWord (0xF055 + 256 * x) →
    ∀ r ≤ x, n.memory.byte (m.index + r) = m.register r
  display : n.display ≠ m.display →
    m.AtWord 0x00E0 ∨ ∃ (x y : Register) (r : Fin 16), m.AtWord (0xD000 + 256 * x + 16 * y + r)
  cleared : m.AtWord 0x00E0 → ∀ cx cy, n.display.lit cx cy = false
  index : n.index ≠ m.index → m.SetsIndex
  registers : ∀ r, n.register r ≠ m.register r → m.SetsRegister r
  restored : ∀ x : Register, m.AtWord (0xF065 + 256 * x) →
    ∀ r ≤ x, n.register r = m.memory.byte (m.index + r)
  /-- A counter that is not set is what the tick before the instruction has left. -/
  delay : (∃ x : Register, m.AtWord (0xF015 + 256 * x) ∧
      n.timers.delay = (m.register x).toNat) ∨
    (∀ x : Register, ¬ m.AtWord (0xF015 + 256 * x)) ∧ n.timers.delay = m.timers.tick.1.delay
  sound : (∃ x : Register, m.AtWord (0xF018 + 256 * x) ∧
      n.timers.sound = (m.register x).toNat) ∨
    (∀ x : Register, ¬ m.AtWord (0xF018 + 256 * x)) ∧ n.timers.sound = m.timers.tick.1.sound
  keys : n.keypad.keys = m.keypad.keys
  redraw_iff : redraw = true ↔
    ∃ (x y : Register) (r : Fin 16), m.AtWord (0xD000 + 256 * x + 16 * y + r)

/-! ## Registers, index and `pc` -/

/-- What an instruction at `m` may have done in `m'` to the registers, the index and `pc`. -/
structure Inner (m m' : Machine σ) : Prop where
  registers : ∀ r, m'.register r ≠ m.register r → m.SetsRegister r
  index : m'.index ≠ m.index → m.SetsIndex
  pc : Diverts m.word ∨ m'.pc = m.pc + 2

/-- Most instructions leave the registers and the index alone. -/
theorem Inner.of_kept (hregisters : m'.registers = m.registers) (hindex : m'.index = m.index)
    (hpc : Diverts m.word ∨ m'.pc = m.pc + 2) : Inner m m' where
  registers r hr := absurd (congrArg (fun v => v[r]) hregisters) hr
  index h := absurd hindex h
  pc := hpc

/-- Many write to one register. -/
theorem Inner.of_set {x : Register} {b : UInt8} (hx : m.SetsRegister x)
    (hregisters : m'.registers = (m.setRegister x b).registers) (hindex : m'.index = m.index)
    (hpc : m'.pc = m.pc + 2) : Inner m m' where
  registers r hr := by
    have hset : m'.register r = if r = x then b else m.register r :=
      (congrArg (fun v => v[r]) hregisters).trans (m.register_setRegister x b r)
    by_cases hrx : r = x
    · rw [hrx]
      exact hx
    · rw [hset, if_neg hrx] at hr
      exact absurd rfl hr
  index h := absurd hindex h
  pc := .inr hpc

theorem code_lt (op : Arithmetic) : op.code < 16 := by
  cases op <;> decide

/-- An arithmetic instruction with a flag is one of five. -/
theorem code_of_flag? {op : Arithmetic} {a b : UInt8} {bit : Bool} (h : op.flag? a b = some bit) :
    (⟨op.code, code_lt op⟩ : Fin 16) ∈ [0x4, 0x5, 0x6, 0x7, 0xE] := by
  cases op with
  | copy => cases h
  | or => cases h
  | and => cases h
  | xor => cases h
  | _ => decide

/-- The result may go to the flag register, and then the flag comes last. -/
theorem setsRegister_computed {op : Arithmetic} {x y : Register}
    (hi : m.AtWord (Instruction.compute op x y).encode)
    (hregisters : m'.registers = m.computed op x y) {r : Register}
    (hr : m'.register r ≠ m.register r) : m.SetsRegister r := by
  rw [register, hregisters] at hr
  have hresult : m.SetsRegister x := .result (n := ⟨op.code, code_lt op⟩) hi
  by_cases hrx : r = x
  · rw [hrx]
    exact hresult
  · have hkept : (m.registers.set x (op.result (m.register x) (m.register y)))[r] = m.register r :=
      (m.register_setRegister x _ r).trans (if_neg hrx)
    rw [computed] at hr
    cases hflag : op.flag? (m.register x) (m.register y) with
    | none =>
      rw [hflag] at hr
      exact absurd hkept hr
    | some bit =>
      rw [hflag] at hr
      by_cases hrf : r = flagRegister
      · rw [hrf]
        exact .carry (code_of_flag? hflag) hi
      · have hset := register_setRegister
          (m.setRegister x (op.result (m.register x) (m.register y))) flagRegister (flag bit) r
        rw [if_neg hrf] at hset
        exact absurd (hset.trans hkept) hr

theorem register_of_restored {x : Register} (h : m'.registers = m.restored x) (r : Register) :
    m'.register r = if r ≤ x then m.memory.byte (m.index + r) else m.register r := by
  rw [register, h]
  show (Vector.ofFn _)[r.val] = _
  rw [Vector.getElem_ofFn]

theorem diverts_of_atWord {i : Instruction} (hi : m.AtWord i.encode) (h : i.setsPc = true) :
    Diverts m.word := by
  rw [hi.2]
  exact diverts_encode h

theorem length_take_registers (m : Machine σ) (x : Register) :
    (m.registers.toList.take (x + 1)).length = x + 1 := by
  rw [List.length_take, Vector.length_toList]
  omega

/-- A word belongs to one instruction. -/
theorem AtWord.unique {i j : Instruction} (hi : m.AtWord i.encode) (hj : m.AtWord j.encode) :
    i = j :=
  encode_inj (hi.2.symm.trans hj.2)

theorem draws_iff {i : Instruction} (hi : m.AtWord i.encode) :
    i.draws = true ↔
      ∃ (x y : Register) (r : Fin 16), m.AtWord (0xD000 + 256 * x + 16 * y + r) := by
  constructor
  · intro h
    cases i with
    | draw x y r => exact ⟨x, y, r, hi⟩
    | _ => cases h
  · rintro ⟨x, y, r, hdraw⟩
    rw [hi.unique (j := .draw x y r) hdraw]
    rfl

variable [RandomSource σ]

/-- **What an executed instruction does to the registers, the index and `pc`.** The tick before it
has moved none of them. -/
theorem inner_of_execute {i : Instruction} (hi : m.AtWord i.encode)
    (he : m.tick.execute i = .ok m') : Inner m m' := by
  cases i with
  | clear | setDelay x | setSound x => cases he; exact .of_kept rfl rfl (.inr rfl)
  | jump a | jumpOffset a => cases he; exact .of_kept rfl rfl (.inl (diverts_of_atWord hi rfl))
  | call a =>
    rw [execute] at he
    split at he <;> cases he
    exact .of_kept rfl rfl (.inl (diverts_of_atWord hi rfl))
  | ret =>
    rw [execute] at he
    split at he <;> cases he
    exact .of_kept rfl rfl (.inl (diverts_of_atWord hi rfl))
  | skip c => cases he; exact .of_kept rfl rfl (.inl (diverts_of_atWord hi rfl))
  | setByte x b => cases he; exact .of_set (.setByte hi) rfl rfl rfl
  | addByte x b => cases he; exact .of_set (.addByte hi) rfl rfl rfl
  | random x mask => cases he; exact .of_set (.random hi) rfl rfl rfl
  | readDelay x => cases he; exact .of_set (.delay hi) rfl rfl rfl
  | compute op x y =>
    cases he
    exact ⟨fun r hr => setsRegister_computed hi rfl hr, absurd rfl, .inr rfl⟩
  | setIndex a => cases he; exact ⟨fun r hr => absurd rfl hr, fun _ => .address hi, .inr rfl⟩
  | glyph x => cases he; exact ⟨fun r hr => absurd rfl hr, fun _ => .glyph hi, .inr rfl⟩
  | addIndex x =>
    rw [execute] at he
    dsimp only at he
    split at he <;> cases he
    · rename_i hsum
      have hset : Inner m (m.setRegister flagRegister 1) :=
        .of_set (.overflow hi hsum) rfl rfl rfl
      exact ⟨hset.registers, fun _ => .sum hi, .inr rfl⟩
    · exact ⟨fun r hr => absurd rfl hr, fun _ => .sum hi, .inr rfl⟩
  | awaitRelease x =>
    rw [execute] at he
    split at he <;> cases he
    · exact .of_set (.key hi) rfl rfl rfl
    · -- the instruction waits
      exact .of_kept rfl rfl (.inl (diverts_of_atWord hi rfl))
  | draw x y n =>
    rw [execute_draw] at he
    split at he <;> cases he
    exact .of_set (.collision hi) rfl rfl rfl
  | storeDecimal x | store x =>
    simp only [execute_storeDecimal, execute_store] at he
    split at he <;> cases he
    exact .of_kept rfl rfl (.inr rfl)
  | restore x =>
    rw [execute_restore] at he
    split at he <;> cases he
    refine ⟨fun r hr => ?_, absurd rfl, .inr rfl⟩
    by_cases hrx : r ≤ x
    · exact .restored hrx hi
    · exact absurd ((register_of_restored (m := m) rfl r).trans (if_neg hrx)) hr

/-! ## Memory -/

theorem writesByte_of_execute {i : Instruction} (hi : m.AtWord i.encode)
    (he : m.tick.execute i = .ok m') {k : Nat} (hk : m'.memory.byte k ≠ m.memory.byte k) :
    m.WritesByte k := by
  cases i with
  | storeDecimal x =>
    rw [execute_storeDecimal] at he
    split at he <;> cases he
    have hinside : ¬ (k < m.index ∨ m.index + 3 ≤ k) :=
      fun h => hk (m.memory.byte_putAll_of_outside h)
    exact .digit hi (by omega) (by omega)
  | store x =>
    rw [execute_store] at he
    split at he <;> cases he
    have hlength := m.length_take_registers x
    have hinside : ¬ (k < m.index ∨ m.index + (m.registers.toList.take (x + 1)).length ≤ k) :=
      fun h => hk (m.memory.byte_putAll_of_outside h)
    exact .stored hi (by omega) (by omega)
  | _ => cases outcome_of_execute he <;> exact absurd rfl hk

theorem step_storeDecimal (hm : m.fault = none) {redraw : Bool} (hok : m.step.2 = .ok redraw)
    {x : Register} (hw : m.AtWord (0xF033 + 256 * x)) :
    m.index + 3 ≤ 4096 ∧
      m.step.1.memory = m.memory.putAll m.index (decimalDigits (m.register x)) := by
  obtain ⟨m', he, -, hs⟩ := executed_of_ok hm hok (i := .storeDecimal x) hw
  rw [execute_storeDecimal] at he
  split at he <;> cases he
  rename_i hfits
  exact ⟨hfits.resolve_left (by omega), by rw [hs]; rfl⟩

theorem step_store (hm : m.fault = none) {redraw : Bool} (hok : m.step.2 = .ok redraw)
    {x : Register} (hw : m.AtWord (0xF055 + 256 * x)) :
    m.index + (x + 1) ≤ 4096 ∧
      m.step.1.memory = m.memory.putAll m.index (m.registers.toList.take (x + 1)) := by
  obtain ⟨m', he, -, hs⟩ := executed_of_ok hm hok (i := .store x) hw
  rw [execute_store] at he
  split at he <;> cases he
  rename_i hfits
  exact ⟨hfits.resolve_left (by omega), by rw [hs]; rfl⟩

theorem step_restore (hm : m.fault = none) {redraw : Bool} (hok : m.step.2 = .ok redraw)
    {x : Register} (hw : m.AtWord (0xF065 + 256 * x)) :
    m.index + (x + 1) ≤ 4096 ∧ m.step.1.registers = m.restored x := by
  obtain ⟨m', he, -, hs⟩ := executed_of_ok hm hok (i := .restore x) hw
  rw [execute_restore] at he
  split at he <;> cases he
  rename_i hfits
  exact ⟨hfits.resolve_left (by omega), by rw [hs]; rfl⟩

/-! ## The frame of a step -/

/-- **A step writes to the places that its word names**, and to no others. -/
theorem framed_step (hm : m.fault = none) {redraw : Bool} (hok : m.step.2 = .ok redraw) :
    Framed m m.step.1 redraw := by
  obtain ⟨i, hi⟩ := atWord_of_ok hm hok
  obtain ⟨m', he, hredraw, hs⟩ := executed_of_ok hm hok hi
  have hinner := inner_of_execute hi he
  constructor
  case bytes =>
    intro k hk
    rw [hs] at hk
    exact writesByte_of_execute hi he hk
  case digits =>
    intro x hx
    obtain ⟨hfits, hmemory⟩ := step_storeDecimal hm hok hx
    obtain ⟨h, t, o, hdigits, hh, ht, ho, hvalue⟩ := decimalDigits_value (m.register x)
    have hinside : ∀ k (hk : k < 3),
        (m.memory.putAll m.index [h, t, o]).byte (m.index + k) = [h, t, o][k] :=
      fun k hk => m.memory.byte_putAll_of_inside hfits hk
    rw [hmemory, hdigits]
    exact ⟨h, t, o, hh, ht, ho, hvalue, hinside 0 (by decide), hinside 1 (by decide),
      hinside 2 (by decide)⟩
  case stored =>
    intro x hx r hr
    obtain ⟨hfits, hmemory⟩ := step_store hm hok hx
    have hlength := m.length_take_registers x
    have hlt : r.val < (m.registers.toList.take (x + 1)).length := by
      have := Fin.le_def.mp hr
      omega
    rw [hmemory, m.memory.byte_putAll_of_inside (by omega) hlt, List.getElem_take,
      Vector.getElem_toList]
    rfl
  case display =>
    intro hne
    rw [hs] at hne
    cases outcome_of_execute he with
    | clear => exact .inl hi
    | draw x y r => exact .inr ⟨x, y, r, hi⟩
    | _ => exact absurd rfl hne
  case cleared =>
    intro hw cx cy
    obtain rfl := hi.unique (j := .clear) hw
    cases he
    rw [hs]
    exact Display.lit_blank cx cy
  case index =>
    intro hne
    rw [hs] at hne
    exact hinner.index hne
  case registers =>
    intro r hne
    rw [hs] at hne
    exact hinner.registers r hne
  case restored =>
    intro x hx r hr
    rw [register_of_restored (step_restore hm hok hx).2, if_pos hr]
  case delay => exact step_counter hm .delay
  case sound => exact step_counter hm .sound
  case keys => rw [step_keypad hm]; rfl
  case redraw_iff => rw [hredraw]; exact draws_iff hi

/-! ## Memory over a run -/

theorem step_writesByte (hm : m.fault = none) {k : Nat}
    (hk : m.step.1.memory.byte k ≠ m.memory.byte k) :
    (∃ redraw, m.step.2 = .ok redraw) ∧ m.WritesByte k := by
  rcases step_cases hm with ⟨f, -, -, hs⟩ | ⟨i, m', hi, he, hs⟩
  · rw [hs] at hk
    exact absurd rfl hk
  · rw [hs] at hk ⊢
    exact ⟨⟨_, rfl⟩, writesByte_of_execute hi he hk⟩

/-- The byte at `k` is the one that was loaded, unless a step that was not refused has written to
it. -/
def StillLoaded (program : Program) (k : Nat) (es : List (Machine σ)) (m : Machine σ) : Prop :=
  m.program = program ∧
  ((∀ e ∈ es, (∃ redraw, e.step.2 = .ok redraw) → ¬ e.WritesByte k) →
    m.memory.byte k = (initialMemory program).byte k)

theorem stillLoaded_step {program : Program} {k : Nat} {es : List (Machine σ)}
    (hm : m.fault = none) (h : StillLoaded program k es m) :
    StillLoaded program k (es ++ [m]) m.step.1 := by
  obtain ⟨hprogram, hloaded⟩ := h
  have hbuilt : Built program m.timers.speed m := ⟨hprogram, rfl⟩
  refine ⟨(built_step hbuilt).1, fun hno => ?_⟩
  have hbefore := hloaded fun e he => hno e (List.mem_append_left _ he)
  by_cases hk : m.step.1.memory.byte k = m.memory.byte k
  · exact hk.trans hbefore
  · obtain ⟨hok, hwrites⟩ := step_writesByte hm hk
    exact absurd hwrites (hno m (List.mem_append_right _ List.mem_cons_self) hok)

theorem stillLoaded_under (program : Program) (k : Nat) :
    TracedUnder (·.writesMemory = false) (StillLoaded program k (σ := σ)) where
  step _ _ hm h := stillLoaded_step hm h
  other := by
    intro es m c hc hruns h
    by_cases hreset : c = .reset
    · rw [hreset]
      refine ⟨h.1, fun _ => ?_⟩
      show (initialMemory m.program).byte k = _
      rw [h.1]
    · rw [m.perform_of_not_runs hruns hreset, HostCall.stores_of_not_writesMemory hc]
      exact h

/--
**What a step may change is named by its word.** In every reachable machine, a step that is not
refused changes no more of memory, display, registers, index, counters and keys than its word
allows, and what it writes is what the machine held before. So on a run without writes by the host,
whatever the program does to itself, a byte that no executed instruction has written is still the
byte of the font or of the program that was loaded there, or zero.
-/
theorem step_keeps_frame (program : Program) (speed : Speed) (source : σ) :
    ∃ m₀ : Machine σ,
      build (.bytes program.bytes) (.int speed.perSecond) source = .ok m₀ ∧
      (∀ before : List HostCall,
        let m := m₀.after before
        m.fault = none → ∀ redraw, m.step.2 = .ok redraw → Framed m m.step.1 redraw) ∧
      ∀ calls : List HostCall, (∀ c ∈ calls, c.writesMemory = false) → ∀ k,
        (∀ e ∈ m₀.stepped calls, (∃ redraw, e.step.2 = .ok redraw) → ¬ e.WritesByte k) →
        (m₀.after calls).memory.byte k = m₀.memory.byte k ∧
        m₀.memory.byte k =
          if k < 0x050 then 0
          else if k < 0x200 then Font.bytes[k - 0x050]?.getD 0
          else program.bytes[k - 0x200]?.getD 0 := by
  refine ⟨_, build_new program speed source, fun before hm redraw hok => framed_step hm hok, ?_⟩
  intro calls hcalls k hno
  have hstart : StillLoaded program k [] (new program speed source) := ⟨rfl, fun _ => rfl⟩
  obtain ⟨-, hloaded⟩ := (stillLoaded_under program k).after hcalls hstart
  exact ⟨hloaded hno, byte_initialMemory program k⟩

/-- The digits of 254 replace the program from 0x206 on, and the word 0x0205 that they spell there
is refused. The byte before them is still the one that was loaded. -/
theorem step_keeps_frame_overwritten :
    ∃ m₀ : Machine RepeatingBytes,
      build (.bytes [0x60, 0xFE, 0xA2, 0x06, 0xF0, 0x33]) (.int 700) (.ofList []) = .ok m₀ ∧
      let calls := [HostCall.step, .step, .step, .step]
      let m := m₀.after [.step, .step]
      (m.fault = none ∧ m.step.2 = .ok false) ∧
      m.step.1.memory.byte 0x206 = 2 ∧
      Framed m m.step.1 false ∧
      (∀ c ∈ calls, c.writesMemory = false) ∧
      (∀ e ∈ m₀.stepped calls, (∃ redraw, e.step.2 = .ok redraw) → ¬ e.WritesByte 0x205) ∧
      (m₀.after calls).fault = some ⟨.unimplemented, some 0x0205, 0x206⟩ ∧
      (m₀.after calls).memory.byte 0x205 = 0x33 := by
  obtain ⟨m₀, hbuild, hframe, hloaded⟩ :=
    step_keeps_frame ⟨[0x60, 0xFE, 0xA2, 0x06, 0xF0, 0x33], by decide⟩ .default
      (RepeatingBytes.ofList [])
  have hm₀ : m₀ = holding ⟨[0x60, 0xFE, 0xA2, 0x06, 0xF0, 0x33], by decide⟩ :=
    Except.ok.inj (hbuild.symm.trans rfl)
  obtain ⟨h₀, h₁, h₂, h₃, hw₀, hw₁, hindex, hw₃, hok, htwo, hstop⟩ :
      m₀.fault = none ∧ m₀.step.1.fault = none ∧ m₀.step.1.step.1.fault = none ∧
        m₀.step.1.step.1.step.1.fault = none ∧ m₀.word = 0x60FE ∧ m₀.step.1.word = 0xA206 ∧
        m₀.step.1.step.1.index = 0x206 ∧ m₀.step.1.step.1.step.1.word = 0x0205 ∧
        m₀.step.1.step.1.step.2 = .ok false ∧
        m₀.step.1.step.1.step.1.memory.byte 0x206 = 2 ∧
        m₀.step.1.step.1.step.1.step.1.fault = some ⟨.unimplemented, some 0x0205, 0x206⟩ := by
    rw [hm₀]
    decide +kernel
  have hcalls : ∀ c ∈ [HostCall.step, .step, .step, .step], c.writesMemory = false := by decide
  have hno : ∀ e ∈ m₀.stepped [HostCall.step, .step, .step, .step],
      (∃ redraw, e.step.2 = .ok redraw) → ¬ e.WritesByte 0x205 := by
    rw [stepped_step h₀, stepped_step h₁, stepped_step h₂, stepped_step h₃]
    intro e he _ hwrites
    have hword : e.word % 0x100 = 0x33 ∨ e.word % 0x100 = 0x55 := by
      cases hwrites with
      | digit h => have := h.2; omega
      | stored h => have := h.2; omega
    have hfirst : e.index ≤ 0x205 := by
      cases hwrites with
      | digit _ hfirst => exact hfirst
      | stored _ hfirst => exact hfirst
    -- of the four words only one writes, and it writes behind this byte
    rcases List.mem_cons.mp he with rfl | he
    · omega
    · rcases List.mem_cons.mp he with rfl | he
      · omega
      · rcases List.mem_cons.mp he with rfl | he
        · omega
        · rw [List.mem_singleton.mp he] at hword
          omega
  obtain ⟨hsame, hbyte⟩ := hloaded _ hcalls 0x205 hno
  refine ⟨m₀, hbuild, ⟨h₂, hok⟩, htwo, hframe [.step, .step] h₂ false hok, hcalls, hno, hstop, ?_⟩
  rw [hsame, hbyte]
  rfl

end Machine

end ChipEight
