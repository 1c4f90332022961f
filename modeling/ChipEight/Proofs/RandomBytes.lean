import ChipEight.Proofs.Abreast

/-!
# Every random byte is used once

Only one instruction looks at the random source, and it cannot be refused. So the source is where it
is because of the words that have been executed, and of nothing else: not of frames, faults, resets
or what a host writes, and not of the mask, which may well hide the byte that has been drawn. Whoever
counts the bytes that are taken from a source counts the executed words (`bytesDrawn`), and the byte
that one of them gets is the one that its number among them names.
-/

namespace ChipEight

open RandomSource

/-- A count of the bytes that are taken from a source is right about any number of them. -/
theorem RandomSource.count_skip {σ : Type} [RandomSource σ] {count : σ → Nat}
    (hcount : ∀ s, count (next s).2 = count s + 1) (s : σ) (k : Nat) :
    count (skip s k) = count s + k := by
  induction k with
  | zero => rfl
  | succ k ih => rw [skip, hcount, ih, Nat.add_assoc]

namespace Machine

variable {σ : Type} {m : Machine σ}

theorem drawsByte_iff : m.DrawsByte ↔ m.pc ≤ 0xFFE ∧ m.word / 0x1000 = 0xC := by
  constructor
  · rintro ⟨x, mask, hpc, hword⟩
    exact ⟨hpc, by omega⟩
  · rintro ⟨hpc, hword⟩
    refine ⟨⟨m.word / 0x100 % 0x10, by omega⟩, ⟨m.word % 0x100, by omega⟩, hpc, ?_⟩
    dsimp only
    omega

instance decidableDrawsByte : Decidable m.DrawsByte := decidable_of_iff' _ drawsByte_iff

/-- How many of these steps draw a byte. -/
def bytesDrawn (es : List (Machine σ)) : Nat := es.countP fun e => decide e.DrawsByte

theorem bytesDrawn_concat (es : List (Machine σ)) (m : Machine σ) :
    bytesDrawn (es ++ [m]) = bytesDrawn es + if m.DrawsByte then 1 else 0 := by
  by_cases h : m.DrawsByte <;> simp [bytesDrawn, h]

variable [RandomSource σ]

/-- The word that draws a byte is never refused. -/
theorem step_random (hm : m.fault = none) {x : Register} {mask : Fin 256}
    (hw : m.AtWord (0xC000 + 256 * x + mask)) :
    m.step.2 = .ok false ∧ m.step.1.source = (next m.source).2 ∧
      m.step.1.register x = (next m.source).1 &&& UInt8.ofNat mask ∧
      ∀ r ≠ x, m.step.1.register r = m.register r := by
  have hregister := m.tick.register_setRegister x ((next m.source).1 &&& UInt8.ofNat mask)
  rw [step_of_execute hm (i := .random x mask) hw rfl]
  exact ⟨rfl, rfl, (hregister x).trans (if_pos rfl), fun r hr => (hregister r).trans (if_neg hr)⟩

/-- **A step draws a byte if its word says so**, and only then. -/
theorem source_step (hm : m.fault = none) :
    m.step.1.source = if m.DrawsByte then (next m.source).2 else m.source := by
  by_cases hdraws : m.DrawsByte
  · obtain ⟨x, mask, hw⟩ := hdraws
    rw [if_pos ⟨x, mask, hw⟩]
    exact (step_random hm hw).2.1
  · rw [if_neg hdraws]
    rcases step_cases hm with ⟨f, -, -, hs⟩ | ⟨i, m', hi, he, hs⟩
    · rw [hs]
      rfl
    · rw [hs]
      exact (source_of_execute he).trans (if_neg fun h => hdraws (drawsByte_of_atWord hi h))

/-- The source of `m` is what the steps taken so far have left of the one at the beginning. -/
def DrawnFrom (source : σ) (es : List (Machine σ)) (m : Machine σ) : Prop :=
  m.source = skip source (bytesDrawn es)

theorem drawnFrom_step {source : σ} {es : List (Machine σ)} (hm : m.fault = none)
    (h : DrawnFrom source es m) : DrawnFrom source (es ++ [m]) m.step.1 := by
  rw [DrawnFrom, source_step hm, bytesDrawn_concat, h]
  split <;> rfl

/-- The source is out of reach of every call, a reset included. -/
theorem drawnFrom_under (source : σ) : TracedUnder (fun _ => True) (DrawnFrom source) where
  step _ _ hm h := drawnFrom_step hm h
  other := by
    intro es m c _ hruns h
    by_cases hreset : c = .reset
    · rw [hreset]
      exact h
    · rw [m.perform_of_not_runs hruns hreset]
      exact h

/--
**No random byte is lost, and none is used twice.** Whatever a host does with a machine, resets
included, as many bytes have been taken from its source since it was built as words have been executed
that draw one. Each of these steps succeeds, and puts the byte with its number, masked, into the
register that the word names. All other registers stay as they were.
-/
theorem random_bytes_in_order (program : Program) (speed : Speed) (source : σ) :
    ∃ m₀ : Machine σ,
      build (.bytes program.bytes) (.int speed.perSecond) source = .ok m₀ ∧
      ∀ calls : List HostCall,
        (m₀.after calls).source = skip source (bytesDrawn (m₀.stepped calls)) ∧
        (∀ count : σ → Nat, (∀ s, count (next s).2 = count s + 1) →
          count (m₀.after calls).source = count source + bytesDrawn (m₀.stepped calls)) ∧
        ∀ before e later, m₀.stepped calls = before ++ e :: later →
          ∀ (x : Register) (mask : Fin 256), e.AtWord (0xC000 + 256 * x + mask) →
            e.step.2 = .ok false ∧
            e.step.1.register x = byteAt source (bytesDrawn before) &&& UInt8.ofNat mask ∧
            ∀ r ≠ x, e.step.1.register r = e.register r := by
  refine ⟨_, build_new program speed source, fun calls => ?_⟩
  have hcalls : ∀ c ∈ calls, True := fun _ _ => trivial
  have hstart : DrawnFrom source [] (new program speed source) := rfl
  have hsource := (drawnFrom_under source).after hcalls hstart
  refine ⟨hsource, fun count hcount => ?_, fun before e later he x mask hw => ?_⟩
  · rw [hsource]
    exact count_skip hcount source _
  · obtain ⟨hrunning, hdrawn⟩ := (drawnFrom_under source).before_step hcalls hstart he
    obtain ⟨hok, -, hbyte, hkept⟩ := step_random hrunning hw
    rw [hdrawn] at hbyte
    exact ⟨hok, hbyte, hkept⟩

/-- The second byte is hidden by its mask, and then the machine stops. The reset machine goes on with
the third one. -/
theorem random_bytes_in_order_past_reset :
    ∃ m₀ r : Machine RepeatingBytes,
      build (.bytes [0xC0, 0xFF, 0xC1, 0x00, 0x00, 0x00]) (.int 700)
        (.ofList [0xA7, 0xB8, 0xC9]) = .ok m₀ ∧
      let calls := [HostCall.step, .step, .step, .step, .reset, .step]
      (∃ before, m₀.stepped calls = before ++ r :: [] ∧ before.length = 3 ∧ bytesDrawn before = 2) ∧
      r.AtWord (0xC000 + 256 * (0 : Register) + (0xFF : Fin 256)) ∧
      r.step.1.register 0 = 0xC9 ∧
      (m₀.after calls).source = skip (RepeatingBytes.ofList [0xA7, 0xB8, 0xC9]) 3 := by
  obtain ⟨m₀, hbuild, h⟩ := random_bytes_in_order
    ⟨[0xC0, 0xFF, 0xC1, 0x00, 0x00, 0x00], by decide⟩ .default
    (RepeatingBytes.ofList [0xA7, 0xB8, 0xC9])
  have hm₀ : m₀ = new ⟨[0xC0, 0xFF, 0xC1, 0x00, 0x00, 0x00], by decide⟩ .default
    (.ofList [0xA7, 0xB8, 0xC9]) := Except.ok.inj (hbuild.symm.trans rfl)
  obtain ⟨s₁, hs₁⟩ : ∃ e, e = m₀.step.1 := ⟨_, rfl⟩
  obtain ⟨s₂, hs₂⟩ : ∃ e, e = s₁.step.1 := ⟨_, rfl⟩
  obtain ⟨s₃, hs₃⟩ : ∃ e, e = s₂.step.1 := ⟨_, rfl⟩
  obtain ⟨r, hr⟩ : ∃ e, e = s₃.reset := ⟨_, rfl⟩
  obtain ⟨⟨h₀, h₁, h₂, h₃, h₄⟩, hbefore, hall, hw⟩ :
      (m₀.fault = none ∧ s₁.fault = none ∧ s₂.fault = none ∧
        s₃.fault = some ⟨.unimplemented, some 0x0000, 0x204⟩ ∧ r.fault = none) ∧
      bytesDrawn [m₀, s₁, s₂] = 2 ∧ bytesDrawn [m₀, s₁, s₂, r] = 3 ∧
      (r.pc ≤ 0xFFE ∧ r.word = 0xC0FF) := by
    rw [hr, hs₃, hs₂, hs₁, hm₀]
    decide +kernel
  have hsteps : m₀.stepped [.step, .step, .step, .step, .reset, .step] = [m₀, s₁, s₂] ++ r :: [] := by
    have hstopped : (s₃.perform .step).1 = s₃ := by
      show s₃.step.1 = s₃
      rw [step_of_fault h₃]
    rw [stepped_step h₀, ← hs₁, stepped_step h₁, ← hs₂, stepped_step h₂, ← hs₃, stepped,
      steppedBy_of_fault h₃, hstopped, stepped_of_not_runs _ rfl, List.nil_append]
    show m₀ :: s₁ :: s₂ :: s₃.reset.stepped [.step] = _
    rw [← hr, stepped_step h₄]
    rfl
  obtain ⟨hsource, -, hbytes⟩ := h [.step, .step, .step, .step, .reset, .step]
  obtain ⟨-, hbyte, -⟩ := hbytes _ _ _ hsteps 0 0xFF hw
  refine ⟨m₀, r, hbuild, ⟨_, hsteps, rfl, hbefore⟩, hw, ?_, ?_⟩
  · rw [hbyte, hbefore]
    rfl
  · rw [hsource, hsteps]
    exact congrArg _ hall

end Machine

end ChipEight
