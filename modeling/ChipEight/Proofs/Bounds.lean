import ChipEight.Proofs.Cycle
import ChipEight.Proofs.History

/-!
# Every machine stays in bounds

`pc` may leave memory, but not by much: a jump past register 0 adds a byte to an address, a skip at
the end of memory adds four to the last address of a word. Return addresses lie two behind a word,
the index is wrapped at twelve bits or points at a glyph, and the counters only take bytes. The
bounds are kept together, since each needs the others: the program counter that a return restores
is bounded because the stack is.
-/

namespace ChipEight.Machine

open Instruction

variable {σ : Type}

/-- The bounds of a machine that runs at `speed`. -/
structure Bounds (speed : Speed) (m : Machine σ) : Prop where
  index_le : m.index ≤ 0xFFF
  pc_le : m.pc ≤ 0x10FE
  depth_le : m.stack.length ≤ 16
  returns : ∀ a ∈ m.stack, 2 ≤ a ∧ a ≤ 0x1000
  delay : 0 ≤ m.timers.delay ∧ m.timers.delay ≤ 255
  sound : 0 ≤ m.timers.sound ∧ m.timers.sound ≤ 255
  speed_eq : m.timers.speed = speed
  accumulator_le : m.timers.accumulator ≤ speed.stepsPerTick
  /-- A stopped machine stands at the instruction that stopped it. -/
  fault_pc : ∀ f, m.fault = some f → f.pc = m.pc

variable {speed : Speed} {m m' : Machine σ}

theorem bounds_new (program : Program) (speed : Speed) (source : σ) :
    Bounds speed (new program speed source) where
  index_le := Nat.zero_le _
  pc_le := by show 0x200 ≤ 0x10FE; decide
  depth_le := Nat.zero_le _
  returns := by intro a ha; cases ha
  delay := by show (0 : Int) ≤ 0 ∧ (0 : Int) ≤ 255; decide
  sound := by show (0 : Int) ≤ 0 ∧ (0 : Int) ≤ 255; decide
  speed_eq := rfl
  accumulator_le := Nat.zero_le _
  fault_pc := by intro f hf; cases hf

theorem Bounds.reset (h : Bounds speed m) : Bounds speed m.reset := by
  have hs := bounds_new m.program m.timers.speed m.source
  rw [h.speed_eq] at hs
  exact { hs with speed_eq := h.speed_eq }

/-! ## Timers -/

theorem countDown_bounds {n : Int} (h : 0 ≤ n ∧ n ≤ 255) :
    0 ≤ Timers.countDown n ∧ Timers.countDown n ≤ 255 := by
  unfold Timers.countDown
  split <;> omega

theorem Bounds.tick (h : Bounds speed m) : Bounds speed m.tick := by
  unfold Machine.tick Timers.tick
  split
  · rename_i hle
    rw [h.speed_eq] at hle
    exact { h with accumulator_le := hle }
  · exact { h with
      delay := countDown_bounds h.delay
      sound := countDown_bounds h.sound
      accumulator_le := Nat.zero_le _ }

theorem byte_bounds (b : UInt8) : 0 ≤ (b.toNat : Int) ∧ (b.toNat : Int) ≤ 255 := by
  have := b.toNat_lt
  omega

/-! ## Instructions -/

/-- Most instructions leave the stack and the timers alone. -/
theorem Bounds.of_kept (h : Bounds speed m) (hindex : m'.index ≤ 0xFFF) (hpc : m'.pc ≤ 0x10FE)
    (hstack : m'.stack = m.stack) (htimers : m'.timers = m.timers) (hfault : m'.fault = none) :
    Bounds speed m' where
  index_le := hindex
  pc_le := hpc
  depth_le := by rw [hstack]; exact h.depth_le
  returns := by rw [hstack]; exact h.returns
  delay := by rw [htimers]; exact h.delay
  sound := by rw [htimers]; exact h.sound
  speed_eq := by rw [htimers]; exact h.speed_eq
  accumulator_le := by rw [htimers]; exact h.accumulator_le
  fault_pc := by intro f hf; rw [hfault] at hf; cases hf

theorem glyphAddress_le (b : UInt8) : (Font.glyphAddress b.toNat).toNat ≤ 0xFFF := by
  have := b.toNat_lt
  unfold Font.glyphAddress Font.start Font.glyphSize
  omega

variable [RandomSource σ]

/-- **Every instruction keeps the bounds**, executed at an address that holds a word. -/
theorem Bounds.execute (h : Bounds speed m) (hm : m.fault = none) (hpc : m.pc ≤ 0xFFE)
    {i : Instruction} (he : m.execute i = .ok m') : Bounds speed m' := by
  have running : ∀ (k : Nat) f, m.fault = some f → f.pc = k := by
    intro k f hf
    rw [hm] at hf
    cases hf
  -- what goes on to the next instruction, or to the one after it, stays near memory
  have next : m.pc + 2 ≤ 0x10FE := by omega
  have past : m.pc + 4 ≤ 0x10FE := by omega
  cases i with
  | ret =>
    rw [Machine.execute] at he
    cases hs : m.stack with
    | nil => rw [hs] at he; cases he
    | cons a rest =>
      rw [hs] at he
      cases he
      -- `pc` is only as good as the address that some call left
      have hdepth := h.depth_le
      have hreturns := h.returns
      rw [hs] at hdepth hreturns
      have ha := hreturns a List.mem_cons_self
      exact { h with
        pc_le := by show a ≤ 0x10FE; omega
        depth_le := Nat.le_of_succ_le hdepth
        returns := fun b hb => hreturns b (List.mem_cons_of_mem a hb)
        fault_pc := running _ }
  | call a =>
    rw [Machine.execute] at he
    split at he
    · rename_i hdepth
      cases he
      -- the new address lies two behind a word, and the call had room for it
      exact { h with
        pc_le := by show a.val ≤ 0x10FE; omega
        depth_le := hdepth
        returns := by
          intro b hb
          rcases List.mem_cons.mp hb with rfl | hb
          · omega
          · exact h.returns b hb
        fault_pc := running _ }
    · cases he
  | jump a => cases he; exact h.of_kept h.index_le (by show a.val ≤ _; omega) rfl rfl hm
  | jumpOffset a =>
    cases he
    have := (m.register 0).toNat_lt
    exact h.of_kept h.index_le (by show a.val + (m.register 0).toNat ≤ _; omega) rfl rfl hm
  | skip c =>
    cases he
    exact h.of_kept h.index_le (by show (if _ then _ else _) ≤ _; split <;> omega) rfl rfl hm
  | setIndex a => cases he; exact h.of_kept (by show a.val ≤ _; omega) next rfl rfl hm
  | addIndex x =>
    rw [Machine.execute] at he
    dsimp only at he
    split at he
    · cases he
      have hwrap := Nat.mod_lt (m.index + (m.register x).toNat) (by decide : 0 < Memory.size)
      exact h.of_kept (Nat.le_of_lt_succ hwrap) next rfl rfl hm
    · rename_i hle
      cases he
      exact h.of_kept (Nat.le_of_lt_succ (Nat.not_le.mp hle)) next rfl rfl hm
  | glyph x => cases he; exact h.of_kept (glyphAddress_le _) next rfl rfl hm
  | setDelay x =>
    cases he
    exact { h with
      pc_le := next
      delay := byte_bounds _
      fault_pc := running _ }
  | setSound x =>
    cases he
    exact { h with
      pc_le := next
      sound := byte_bounds _
      fault_pc := running _ }
  | awaitRelease x =>
    rw [Machine.execute] at he
    split at he
    · cases he
      exact h.of_kept h.index_le next rfl rfl hm
    · -- the instruction waits and is executed again
      cases he
      exact h
  | draw x y n | storeDecimal x | store x | restore x =>
    -- memory may refuse, and then nothing has been executed
    simp only [execute_draw, execute_storeDecimal, execute_store, execute_restore] at he
    split at he <;> cases he
    exact h.of_kept h.index_le next rfl rfl hm
  | _ => cases he; exact h.of_kept h.index_le next rfl rfl hm

theorem Bounds.step (h : Bounds speed m) : Bounds speed m.step.1 := by
  cases hm : m.fault with
  | some f => rw [step_of_fault hm]; exact h
  | none =>
    rcases step_cases hm with ⟨f, hf, -, hs⟩ | ⟨i, m', hi, he, hs⟩
    · rw [hs]
      exact { h.tick with fault_pc := by intro g hg; cases hg; exact hf }
    · rw [hs]
      exact { h.tick.execute hm hi.1 he with }

/-! ## Histories -/

theorem bounds_kept (speed : Speed) : Kept (Bounds speed (σ := σ)) where
  step _ h := h.step
  reset _ h := h.reset
  keypad _ _ h := { h with }
  memory _ _ h := { h with }

/-- The bounds hold in every reachable machine, for the speed it was built with. -/
theorem bounds_reachable (h : Reachable m) : ∃ speed, Bounds speed m := by
  induction h with
  | new program speed source => exact ⟨speed, bounds_new program speed source⟩
  | call c _ ih =>
    obtain ⟨speed, hb⟩ := ih
    exact ⟨speed, (bounds_kept speed).perform c hb⟩

/--
**Every machine stays in bounds.** Whatever program of at most 3584 bytes it is built from, at
whatever positive speed, and whatever its host calls, refused calls included.
-/
theorem in_bounds_after {data : List UInt8} (hdata : data.length ≤ 3584) {n : Int} (hn : 0 < n)
    (source : σ) :
    ∃ m₀ : Machine σ, build (.bytes data) (.int n) source = .ok m₀ ∧
      ∀ calls : List HostCall,
        let m := m₀.after calls
        (m.memory.bytes.toList.length = 4096 ∧ ∀ b ∈ m.memory.bytes.toList, b.toNat ≤ 255) ∧
        (m.registers.toList.length = 16 ∧ ∀ b ∈ m.registers.toList, b.toNat ≤ 255) ∧
        m.index ≤ 0xFFF ∧
        m.pc ≤ 0x10FE ∧
        (m.stack.length ≤ 16 ∧ ∀ a ∈ m.stack, 2 ≤ a ∧ a ≤ 0x1000) ∧
        (0 ≤ m.timers.delay ∧ m.timers.delay ≤ 255) ∧
        (0 ≤ m.timers.sound ∧ m.timers.sound ≤ 255) ∧
        (m.timers.accumulator : Int) ≤ n / 60 ∧
        (m.keypad.keys.toList.length = 16 ∧ ∀ k ∈ m.keypad.released, k.val ≤ 15) ∧
        m.display.cells.toList.length = 2048 ∧
        ∀ f, m.fault = some f → f.pc = m.pc := by
  obtain ⟨program, speed, -, hspeed, hbuild⟩ := build_eq_ok hdata hn source
  refine ⟨_, hbuild, fun calls => ?_⟩
  have h := (bounds_kept speed).after (bounds_new program speed source) calls
  have hbyte : ∀ b : UInt8, b.toNat ≤ 255 := fun b => Nat.le_of_lt_succ b.toNat_lt
  have hacc := h.accumulator_le
  unfold Speed.stepsPerTick timerRate at hacc
  exact ⟨⟨by simp, fun b _ => hbyte b⟩, ⟨by simp, fun b _ => hbyte b⟩, h.index_le, h.pc_le,
    ⟨h.depth_le, h.returns⟩, h.delay, h.sound, by omega,
    ⟨by simp, fun k _ => Nat.le_of_lt_succ k.isLt⟩, by simp, h.fault_pc⟩

/-- A jump of 255 past the last address. No machine gets further than that. -/
theorem in_bounds_after_offset_jump :
    ([0x60, 0xFF, 0xBF, 0xFF] : List UInt8).length ≤ 3584 ∧ (0 : Int) < 700 ∧
    ∃ m₀ : Machine RepeatingBytes,
      build (.bytes [0x60, 0xFF, 0xBF, 0xFF]) (.int 700) (.ofList []) = .ok m₀ ∧
      (m₀.after [.step, .step]).pc = 0x10FE ∧
      ∀ calls, (m₀.after calls).pc ≤ 0x10FE ∧ (m₀.after calls).stack.length ≤ 16 ∧
        ((m₀.after calls).timers.accumulator : Int) ≤ 700 / 60 := by
  have hdata : ([0x60, 0xFF, 0xBF, 0xFF] : List UInt8).length ≤ 3584 := by decide
  have hn : (0 : Int) < 700 := by decide
  obtain ⟨m₀, hbuild, h⟩ := in_bounds_after hdata hn (RepeatingBytes.ofList [])
  have hm₀ : m₀ = holding ⟨[0x60, 0xFF, 0xBF, 0xFF], by decide⟩ :=
    Except.ok.inj (hbuild.symm.trans rfl)
  refine ⟨hdata, hn, m₀, hbuild, ?_, fun calls => ?_⟩
  · rw [hm₀]
    decide +kernel
  · obtain ⟨-, -, -, hpc, ⟨hdepth, -⟩, -, -, hacc, -⟩ := h calls
    exact ⟨hpc, hdepth, hacc⟩

end ChipEight.Machine
