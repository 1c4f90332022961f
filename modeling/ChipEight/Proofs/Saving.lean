import ChipEight.Proofs.Frame

/-!
# Registers saved and brought back

A program that needs its registers for something else stores them and restores them later. They come
back as they were as long as their bytes are left alone in between, and the bytes are what has to be
watched: whatever else the program or the host does to memory, to the registers or to the index does
not matter, if only the index is where it was when the registers are restored. The other way round,
storing what has just been restored writes every byte over itself.
-/

namespace ChipEight

/-- The call writes to the byte at `k`. A call that is refused writes nothing. -/
inductive HostCall.WritesByte (k : Nat) : HostCall → Prop where
  | load {addr : Int} {data : List UInt8} (haddr : 0 ≤ addr) (hfits : addr + data.length ≤ 4096)
    (hfirst : addr ≤ k) (hlast : k < addr + data.length) : WritesByte k (.load addr data)
  | poke {value : Int} : WritesByte k (.poke k value)

/-- A byte that a call does not write to is what it was. -/
theorem HostCall.byte_stores {c : HostCall} {k : Nat} (h : ¬ c.WritesByte k) (b : Memory) :
    (c.stores b).byte k = b.byte k := by
  cases c with
  | load addr data =>
    by_cases hends : addr < 0 ∨ 4096 < addr + data.length
    · rw [stores, b.load_of_outside hends]
      rfl
    · rw [stores, b.load_of_inside (by omega) (by omega)]
      refine b.byte_putAll_of_outside ?_
      by_contra hinside
      exact h (.load (by omega) (by omega) (by omega) (by omega))
  | poke addr value =>
    by_cases haddr : Memory.IsAddress addr
    · have hk : k ≠ addr.toNat := by
        rintro rfl
        refine h ?_
        rw [← Int.toNat_of_nonneg haddr.1]
        exact .poke
      have hsize := haddr.2
      rw [stores, b.write_of_isAddress haddr]
      exact (b.byte_put (by omega) _ k).trans (if_neg hk)
    · rw [stores, b.write_of_not_isAddress haddr]
      rfl
  | _ => rfl

namespace Machine

variable {σ : Type} {m m' : Machine σ}

/-- Memory `b` has the registers of `m`, up to `x`, at the index of `m`. -/
def SavedIn (m : Machine σ) (b : Memory) (x : Register) : Prop :=
  ∀ r ≤ x, b.byte (m.index + r) = m.register r

/-- Registers stored over themselves change nothing. -/
theorem putAll_of_savedIn {x : Register} (hfits : m.index + (x + 1) ≤ 4096)
    (h : m.SavedIn m.memory x) :
    m.memory.putAll m.index (m.registers.toList.take (x + 1)) = m.memory := by
  have hlength := m.length_take_registers x
  apply Memory.ext_byte
  intro k _
  by_cases hk : m.index ≤ k ∧ k < m.index + (x + 1)
  · obtain ⟨r, rfl⟩ := Nat.exists_eq_add_of_le hk.1
    have hr : r < x + 1 := by omega
    rw [Memory.byte_putAll_of_inside _ (by omega) (by omega), List.getElem_take,
      Vector.getElem_toList]
    exact (h ⟨r, by omega⟩ (Fin.le_def.mpr (Nat.le_of_lt_succ hr))).symm
  · exact Memory.byte_putAll_of_outside _ (by omega)

variable [RandomSource σ]

/-! ## Both instructions, where the bytes exist -/

theorem restore_of_fits (hm : m.fault = none) {x : Register} (hw : m.AtWord (0xF065 + 256 * x))
    (hfits : m.index + (x + 1) ≤ 4096) :
    m.step.2 = .ok false ∧ m.step.1.index = m.index ∧ m.step.1.memory = m.memory ∧
      ∀ r, m.step.1.register r = if r ≤ x then m.memory.byte (m.index + r) else m.register r := by
  have he : m.tick.execute (.restore x) = _ :=
    (m.tick.execute_restore x).trans (if_pos (.inr hfits))
  rw [step_of_execute hm (i := .restore x) hw he]
  exact ⟨rfl, rfl, rfl, register_of_restored rfl⟩

theorem store_of_fits (hm : m.fault = none) {x : Register} (hw : m.AtWord (0xF055 + 256 * x))
    (hfits : m.index + (x + 1) ≤ 4096) :
    m.step.2 = .ok false ∧
      m.step.1.memory = m.memory.putAll m.index (m.registers.toList.take (x + 1)) := by
  have he : m.tick.execute (.store x) = _ :=
    (m.tick.execute_store x).trans (if_pos (.inr hfits))
  rw [step_of_execute hm (i := .store x) hw he]
  exact ⟨rfl, rfl⟩

/-! ## From the store to the restore -/

/-- Bytes that neither a call nor a step writes to are found as they were left. -/
theorem savedIn_between {m₀ : Machine σ} {calls : List HostCall} (hreset : .reset ∉ calls)
    {early mid later : List (Machine σ)} (hrun : m₀.stepped calls = early ++ m :: (mid ++ m' :: later))
    {x : Register} (hsaved : m.SavedIn m.step.1.memory x)
    (huntouched : ∀ k, m.index ≤ k → k ≤ m.index + x →
      (∀ c ∈ calls, ¬ c.WritesByte k) ∧ ∀ e ∈ mid, ¬ e.WritesByte k) : m.SavedIn m'.memory x := by
  intro r hr
  have hle : r.val ≤ x.val := hr
  obtain ⟨hcalls, hmid⟩ := huntouched (m.index + r) (by omega) (by omega)
  have hallowed : ∀ c ∈ calls, c ≠ .reset ∧ ¬ c.WritesByte (m.index + r) :=
    fun c hc => ⟨fun h => hreset (h ▸ hc), hcalls c hc⟩
  refine kept_between_under (P := fun e => e.memory.byte (m.index + r) = m.register r) ?_ hallowed
    hrun (hsaved r hr) ?_
  · intro e c hc hruns he
    rw [e.perform_of_not_runs hruns hc.1]
    exact (HostCall.byte_stores hc.2 e.memory).trans he
  · intro e he hbyte
    have hmem : e ∈ m₀.stepped calls := by
      rw [hrun]
      simp [he]
    have hrunning : e.fault = none := fault_of_mem_stepped hmem
    by_contra hne
    exact hmid e he (step_writesByte hrunning fun h => hne (h.trans hbyte)).2

/--
**Registers come back as they were saved.** On a run without a reset, `m` stores the registers up to
`x`, and `m'` restores those up to `y` from the same index. If nothing has written to the saved bytes
in between, the restore is not refused, it brings back what was saved, and it touches neither the
registers above `y` nor the index. The other way round, where `m` restores registers and `m'` stores
them again, with registers and bytes as the restore has left them, memory stays as it is. The run may
begin in any state, so what came before the first of the two steps, and what comes after the second,
does not matter.
-/
theorem registers_brought_back {m₀ : Machine σ} {calls : List HostCall} (hreset : .reset ∉ calls)
    {early mid later : List (Machine σ)} (hrun : m₀.stepped calls = early ++ m :: (mid ++ m' :: later))
    (hindex : m'.index = m.index) :
    (∀ x y : Register, y ≤ x → m.AtWord (0xF055 + 256 * x) → m.step.2 = .ok false →
      m'.AtWord (0xF065 + 256 * y) →
      (∀ k, m.index ≤ k → k ≤ m.index + x →
        (∀ c ∈ calls, ¬ c.WritesByte k) ∧ ∀ e ∈ mid, ¬ e.WritesByte k) →
      m'.step.2 = .ok false ∧
      (∀ r ≤ y, m'.step.1.register r = m.register r) ∧
      (∀ r > y, m'.step.1.register r = m'.register r) ∧
      m'.step.1.index = m.index) ∧
    ∀ x : Register, m.AtWord (0xF065 + 256 * x) → m.step.2 = .ok false →
      m'.AtWord (0xF055 + 256 * x) →
      (∀ r ≤ x, m'.register r = m.step.1.register r) →
      (∀ k, m.index ≤ k → k ≤ m.index + x →
        m'.memory.byte k = m.step.1.memory.byte k) →
      m'.step.2 = .ok false ∧ m'.step.1.memory = m'.memory := by
  have running : ∀ e ∈ early ++ m :: (mid ++ m' :: later), e.fault = none := by
    intro e he
    rw [← hrun] at he
    exact fault_of_mem_stepped he
  have hm : m.fault = none := running m (by simp)
  have hm' : m'.fault = none := running m' (by simp)
  constructor
  case left =>
    intro x y hyx hw hok hw' huntouched
    have hle : y.val ≤ x.val := hyx
    obtain ⟨hfits, -⟩ := step_store hm hok hw
    have hsaved : m.SavedIn m.step.1.memory x := (framed_step hm hok).stored x hw
    have hfound : m.SavedIn m'.memory x := savedIn_between hreset hrun hsaved huntouched
    obtain ⟨hok', hindex', -, hregister⟩ := restore_of_fits hm' hw' (by omega)
    refine ⟨hok', fun r hr => ?_, fun r hr => ?_, hindex'.trans hindex⟩
    · rw [hregister, if_pos hr, hindex]
      exact hfound r (Nat.le_trans hr hyx)
    · rw [hregister, if_neg (Fin.not_le.mpr hr)]
  case right =>
    intro x hw hok hw' hregisters hbytes
    obtain ⟨hfits, -⟩ := step_restore hm hok hw
    obtain ⟨-, -, hkept, hrestored⟩ := restore_of_fits hm hw hfits
    obtain ⟨hok', hmemory⟩ := store_of_fits hm' hw' (by omega)
    have hsaved : m'.SavedIn m'.memory x := by
      intro r hr
      have hle : r.val ≤ x.val := hr
      rw [hindex, hbytes _ (by omega) (by omega), hkept, hregisters r hr, hrestored, if_pos hr]
    exact ⟨hok', hmemory.trans (putAll_of_savedIn (by omega) hsaved)⟩

/-- Registers 0 and 1 are saved, register 1 is written out in decimal right behind them, and the host
writes there, too. What is restored is what was saved, and storing it again leaves memory alone. -/
theorem registers_brought_back_beside_digits :
    ∃ m₀ : Machine RepeatingBytes,
      build (.bytes [0x61, 0x22, 0xA3, 0x00, 0xF1, 0x55, 0x61, 0xFE, 0xA3, 0x02, 0xF1, 0x33, 0xA3,
        0x00, 0xF1, 0x65, 0xF1, 0x55]) (.int 700) (.ofList []) = .ok m₀ ∧
      let calls : List HostCall :=
        [.step, .step, .step, .step, .step, .poke 0x302 7, .step, .step, .step, .step]
      ∃ (m m' m'' : Machine RepeatingBytes) (early mid : List (Machine RepeatingBytes)),
        (.reset ∉ calls ∧ m₀.stepped calls = early ++ m :: (mid ++ m' :: [m''])) ∧
        (m.AtWord (0xF055 + 256 * (1 : Register)) ∧ m.step.2 = .ok false ∧
          m'.AtWord (0xF065 + 256 * (1 : Register)) ∧ m'.index = m.index ∧
          ∀ k, m.index ≤ k → k ≤ m.index + (1 : Register) →
            (∀ c ∈ calls, ¬ c.WritesByte k) ∧ ∀ e ∈ mid, ¬ e.WritesByte k) ∧
        m'.register 1 = 0xFE ∧ m'.step.1.register 1 = 0x22 ∧
        (m''.AtWord (0xF055 + 256 * (1 : Register)) ∧ m''.index = m'.index) ∧
        m''.step.1.memory = m''.memory := by
  obtain ⟨m₀, hm₀⟩ : ∃ m : Machine RepeatingBytes, m = holding
      ⟨[0x61, 0x22, 0xA3, 0x00, 0xF1, 0x55, 0x61, 0xFE, 0xA3, 0x02, 0xF1, 0x33, 0xA3, 0x00, 0xF1,
        0x65, 0xF1, 0x55], by decide⟩ := ⟨_, rfl⟩
  have hbuild := build_new
    ⟨[0x61, 0x22, 0xA3, 0x00, 0xF1, 0x55, 0x61, 0xFE, 0xA3, 0x02, 0xF1, 0x33, 0xA3, 0x00, 0xF1, 0x65,
      0xF1, 0x55], by decide⟩ .default (RepeatingBytes.ofList [])
  obtain ⟨s₁, hs₁⟩ : ∃ e, e = m₀.step.1 := ⟨_, rfl⟩
  obtain ⟨m, hm⟩ : ∃ e, e = s₁.step.1 := ⟨_, rfl⟩
  obtain ⟨e₁, he₁⟩ : ∃ e, e = m.step.1 := ⟨_, rfl⟩
  obtain ⟨e₂, he₂⟩ : ∃ e, e = e₁.step.1 := ⟨_, rfl⟩
  obtain ⟨e₃, he₃⟩ : ∃ e, e = (e₂.step.1.perform (.poke 0x302 7)).1 := ⟨_, rfl⟩
  obtain ⟨e₄, he₄⟩ : ∃ e, e = e₃.step.1 := ⟨_, rfl⟩
  obtain ⟨m', hm'⟩ : ∃ e, e = e₄.step.1 := ⟨_, rfl⟩
  obtain ⟨m'', hm''⟩ : ∃ e, e = m'.step.1 := ⟨_, rfl⟩
  obtain ⟨⟨h₀, h₁, h₂, h₃, h₄, h₅, h₆, h₇, h₈⟩, ⟨hw, hok, hindex, hsaved⟩, ⟨hw₁, hw₂, hw₃, hi₃, hw₄⟩,
      ⟨hw', hindex', hregister⟩, hw'', hindex''⟩ :
      (m₀.fault = none ∧ s₁.fault = none ∧ m.fault = none ∧ e₁.fault = none ∧ e₂.fault = none ∧
        e₃.fault = none ∧ e₄.fault = none ∧ m'.fault = none ∧ m''.fault = none) ∧
      ((m.pc ≤ 0xFFE ∧ m.word = 0xF155) ∧ m.step.2 = .ok false ∧ m.index = 0x300 ∧
        m.register 1 = 0x22) ∧
      (e₁.word = 0x61FE ∧ e₂.word = 0xA302 ∧ e₃.word = 0xF133 ∧ e₃.index = 0x302 ∧
        e₄.word = 0xA300) ∧
      ((m'.pc ≤ 0xFFE ∧ m'.word = 0xF165) ∧ m'.index = 0x300 ∧ m'.register 1 = 0xFE) ∧
      (m''.pc ≤ 0xFFE ∧ m''.word = 0xF155) ∧ m''.index = 0x300 := by
    rw [hm'', hm', he₄, he₃, he₂, he₁, hm, hs₁, hm₀]
    decide +kernel
  let calls : List HostCall :=
    [.step, .step, .step, .step, .step, .poke 0x302 7, .step, .step, .step, .step]
  have hreset : .reset ∉ calls := by decide
  have hrun : m₀.stepped calls = [m₀, s₁] ++ m :: ([e₁, e₂, e₃, e₄] ++ m' :: [m'']) := by
    rw [stepped_step h₀, ← hs₁, stepped_step h₁, ← hm, stepped_step h₂, ← he₁, stepped_step h₃,
      ← he₂, stepped_step h₄, stepped_of_not_runs _ rfl, ← he₃, stepped_step h₅, ← he₄,
      stepped_step h₆, ← hm', stepped_step h₇, ← hm'', stepped_step h₈]
    rfl
  have huntouched : ∀ k, m.index ≤ k → k ≤ m.index + (1 : Register) →
      (∀ c ∈ calls, ¬ c.WritesByte k) ∧ ∀ e ∈ [e₁, e₂, e₃, e₄], ¬ e.WritesByte k := by
    intro k _ hk
    have hlow : k < 0x302 := by
      rw [hindex] at hk
      exact Nat.lt_succ_of_le hk
    constructor
    · intro c hc hwrites
      cases hwrites with
      | load => simp [calls] at hc
      | poke =>
        simp only [calls, List.mem_cons, List.not_mem_nil, or_false, reduceCtorEq, false_or,
          HostCall.poke.injEq] at hc
        omega
    · intro e he hwrites
      have hword : e.word % 0x100 = 0x33 ∨ e.word % 0x100 = 0x55 := by
        cases hwrites with
        | digit h => have := h.2; omega
        | stored h => have := h.2; omega
      have hfirst : e.index ≤ k := by
        cases hwrites with
        | digit _ hfirst => exact hfirst
        | stored _ hfirst => exact hfirst
      -- of the four words only one writes, and it writes behind this byte
      simp only [List.mem_cons, List.not_mem_nil, or_false] at he
      rcases he with rfl | rfl | rfl | rfl <;> omega
  have hindex₁ : m'.index = m.index := hindex'.trans hindex.symm
  have hindex₂ : m''.index = m'.index := hindex''.trans hindex'.symm
  obtain ⟨hback, -⟩ := registers_brought_back hreset hrun hindex₁
  obtain ⟨hok', hrestored, -, -⟩ := hback 1 1 (Nat.le_refl _) hw hok hw' huntouched
  -- the second half starts from the restore, and nothing comes between it and the last store
  have hrun' : m₀.stepped calls = [m₀, s₁, m, e₁, e₂, e₃, e₄] ++ m' :: ([] ++ m'' :: []) := hrun
  obtain ⟨-, hagain⟩ := registers_brought_back hreset hrun' hindex₂
  have hsame : m''.step.1.memory = m''.memory := by
    refine (hagain 1 hw' hok' hw'' (fun _ _ => ?_) fun _ _ _ => ?_).2
    · rw [hm'']
    · rw [hm'']
  refine ⟨m₀, hm₀ ▸ hbuild, m, m', m'', [m₀, s₁], [e₁, e₂, e₃, e₄], ⟨hreset, hrun⟩,
    ⟨hw, hok, hw', hindex₁, huntouched⟩, hregister, ?_, ⟨hw'', hindex₂⟩, hsame⟩
  rw [hrestored 1 (Nat.le_refl _), hsaved]

end Machine

end ChipEight
