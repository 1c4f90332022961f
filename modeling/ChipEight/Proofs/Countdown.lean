import ChipEight.Proofs.FreshStart
import ChipEight.Proofs.Trace

/-!
# The counters in closed form

The timers are driven by the steps alone. Counted from the last reset, step `k` is one on which the
counters go down exactly if the period divides `k`, and so a counter shows what was last written to
it, less the number of multiples of the period that have been passed since. A step ticks before it
executes, which is why a value written by step `k₀` is not yet touched by the tick of that step. The
step that faults has ticked too, and nothing ticks after it.
-/

namespace ChipEight

/-! ## One tick -/

/-- From one tick of the timers to the next. -/
def Speed.period (s : Speed) : Nat := s.stepsPerTick + 1

/-- The next number is a multiple of `p`, or it has the quotient of this one. -/
theorem succ_div_cases (k : Nat) {p : Nat} (hp : 0 < p) :
    k % p + 1 < p ∧ (k + 1) % p = k % p + 1 ∧ (k + 1) / p = k / p ∨
    k % p + 1 = p ∧ (k + 1) % p = 0 ∧ (k + 1) / p = k / p + 1 := by
  have hlt := Nat.mod_lt k hp
  have hk : k + 1 = k % p + 1 + p * (k / p) := by
    have := Nat.mod_add_div k p
    omega
  rcases Nat.lt_or_ge (k % p + 1) p with h | h
  · left
    rw [hk, Nat.add_mul_mod_self_left, Nat.add_mul_div_left _ _ hp, Nat.mod_eq_of_lt h,
      Nat.div_eq_of_lt h, Nat.zero_add]
    exact ⟨h, rfl, rfl⟩
  · have h : k % p + 1 = p := by omega
    right
    rw [hk, Nat.add_mul_mod_self_left, Nat.add_mul_div_left _ _ hp, h, Nat.mod_self,
      Nat.div_self hp, Nat.add_comm 1]
    exact ⟨rfl, rfl, rfl⟩

/-- The two counters. -/
inductive Counter where
  | delay
  | sound

namespace Counter

def value (t : Timers) : Counter → Int
  | .delay => t.delay
  | .sound => t.sound

/-- The word that sets the counter from register 0. -/
def word : Counter → Nat
  | .delay => 0xF015
  | .sound => 0xF018

def setting (x : Register) : Counter → Instruction
  | .delay => .setDelay x
  | .sound => .setSound x

theorem encode_setting (c : Counter) (x : Register) : (c.setting x).encode = c.word + 256 * x := by
  cases c <;> rfl

end Counter

/-- A tick after `k` others: the accumulator holds the rest, and the counters go down with each
multiple of the period. -/
theorem Timers.tick_after {t : Timers} {k : Nat} (h : t.accumulator = k % t.speed.period) :
    t.tick.1.accumulator = (k + 1) % t.speed.period ∧
    ∀ c : Counter, c.value t.tick.1 =
      if (k + 1) / t.speed.period = k / t.speed.period then c.value t
      else countDown (c.value t) := by
  have hperiod : 0 < t.speed.period := Nat.succ_pos _
  rcases succ_div_cases k hperiod with ⟨hlt, hmod, hdiv⟩ | ⟨heq, hmod, hdiv⟩
  · have hle : t.accumulator + 1 ≤ t.speed.stepsPerTick := by
      unfold Speed.period at h hlt
      omega
    rw [tick, if_pos hle, hmod, hdiv, ← h]
    refine ⟨rfl, fun c => ?_⟩
    rw [if_pos rfl]
    cases c <;> rfl
  · have hle : ¬ t.accumulator + 1 ≤ t.speed.stepsPerTick := by
      unfold Speed.period at h heq
      omega
    rw [tick, if_neg hle, hmod, hdiv]
    refine ⟨rfl, fun c => ?_⟩
    rw [if_neg (by omega)]
    cases c <;> rfl

namespace Machine

variable {σ : Type}

/-! ## What was written last -/

/-- Of the steps `es`, the last that executed a word `base + 256 x` is number `k₀`, counted from 1,
and it wrote `v`, which stood in register `x`. -/
def LastSet (base : Nat) (es : List (Machine σ)) (k₀ : Nat) (v : UInt8) : Prop :=
  ∃ earlier e later, es = earlier ++ e :: later ∧ k₀ = earlier.length + 1 ∧
    (∃ x : Register, e.AtWord (base + 256 * x) ∧ v = e.register x) ∧
    ∀ e' ∈ later, ∀ x : Register, ¬ e'.AtWord (base + 256 * x)

/-- What a counter shows after `k` steps: what was written to it last, less one for every multiple
of the period since, and never less than zero. -/
def RunsDown (base period k : Nat) (es : List (Machine σ)) (value : Int) : Prop :=
  (∀ k₀ v, LastSet base es k₀ v →
    value = max 0 ((v.toNat : Int) - ((k / period : Nat) - (k₀ / period : Nat)))) ∧
  ((∀ e ∈ es, ∀ x : Register, ¬ e.AtWord (base + 256 * x)) → value = 0)

/-- The last write is made by the last step, or it was made before and the last step makes none. -/
theorem lastSet_concat {base : Nat} {es : List (Machine σ)} {m : Machine σ} {k₀ : Nat} {v : UInt8}
    (h : LastSet base (es ++ [m]) k₀ v) :
    k₀ = es.length + 1 ∧ (∃ x : Register, m.AtWord (base + 256 * x) ∧ v = m.register x) ∨
    (∀ x : Register, ¬ m.AtWord (base + 256 * x)) ∧ LastSet base es k₀ v := by
  obtain ⟨earlier, e, later, hes, hk₀, hset, hlater⟩ := h
  rcases concat_cases hes with ⟨-, rfl, rfl⟩ | ⟨rest, rfl, rfl⟩
  · exact .inl ⟨hk₀, hset⟩
  · refine .inr ⟨hlater m (List.mem_append_right _ List.mem_cons_self), ?_⟩
    exact ⟨earlier, e, rest, rfl, hk₀, hset, fun e' he' => hlater e' (List.mem_append_left _ he')⟩

/-- A word names one register. -/
theorem register_unique {base : Nat} {m : Machine σ} {x y : Register}
    (hx : m.AtWord (base + 256 * x)) (hy : m.AtWord (base + 256 * y)) : x = y := by
  have hword := hx.2.symm.trans hy.2
  exact Fin.ext (by omega)

/-- A counter that was just written shows what was written. -/
theorem runsDown_of_set {base period : Nat} {es : List (Machine σ)} {m : Machine σ} {x : Register}
    (hx : m.AtWord (base + 256 * x)) :
    RunsDown base period (es.length + 1) (es ++ [m]) (m.register x).toNat := by
  refine ⟨fun k₀ v hlast => ?_, fun hnone => ?_⟩
  · rcases lastSet_concat hlast with ⟨rfl, y, hy, rfl⟩ | ⟨hno, -⟩
    · obtain rfl := register_unique hx hy
      omega
    · exact absurd hx (hno x)
  · exact absurd hx (hnone m (List.mem_append_right _ List.mem_cons_self) x)

/-- A counter that was not written goes down with the period. -/
theorem runsDown_of_not_set {base period : Nat} (hperiod : 0 < period) {es : List (Machine σ)}
    {m : Machine σ} {value : Int} (h : RunsDown base period es.length es value)
    (hno : ∀ x : Register, ¬ m.AtWord (base + 256 * x)) :
    RunsDown base period (es.length + 1) (es ++ [m])
      (if (es.length + 1) / period = es.length / period then value
        else Timers.countDown value) := by
  have hdiv : (es.length + 1) / period = es.length / period ∨
      (es.length + 1) / period = es.length / period + 1 := by
    rcases succ_div_cases es.length hperiod with ⟨-, -, hdiv⟩ | ⟨-, -, hdiv⟩
    · exact .inl hdiv
    · exact .inr hdiv
  unfold Timers.countDown
  refine ⟨fun k₀ v hlast => ?_, fun hnone => ?_⟩
  · rcases lastSet_concat hlast with ⟨-, x, hx, -⟩ | ⟨-, hlast⟩
    · exact absurd hx (hno x)
    · have hvalue := h.1 k₀ v hlast
      rcases hdiv with hdiv | hdiv
      · rw [if_pos hdiv, hdiv]
        exact hvalue
      · rw [if_neg (by omega), hdiv]
        split <;> omega
  · have hvalue := h.2 fun e he => hnone e (List.mem_append_left _ he)
    rw [hvalue]
    split <;> rfl

/-! ## The state of the timers on a run -/

/-- The steps of a machine, the one that stopped it included. -/
def ticks (m : Machine σ) : Nat := m.steps + if m.halted then 1 else 0

/-- The timers of `m`, on a run at `speed` that has made the steps `es`. -/
structure Clocked (speed : Speed) (es : List (Machine σ)) (m : Machine σ) : Prop where
  speed_eq : m.timers.speed = speed
  ticks_eq : m.ticks = es.length
  accumulator : m.timers.accumulator = es.length % speed.period
  counter : ∀ c : Counter, RunsDown c.word speed.period es.length es (c.value m.timers)

theorem clocked_new (program : Program) (speed : Speed) (source : σ) :
    Clocked speed [] (new program speed source) where
  speed_eq := rfl
  ticks_eq := rfl
  accumulator := (Nat.zero_mod _).symm
  counter c := by
    constructor
    · rintro k₀ v ⟨earlier, e, later, hes, -⟩
      cases earlier <;> cases hes
    · intro _
      cases c <;> rfl

variable [RandomSource σ]

/-- A step sets a counter, or it leaves it to the tick. -/
theorem step_counter {m : Machine σ} (hm : m.fault = none) (c : Counter) :
    (∃ x : Register, m.AtWord (c.word + 256 * x) ∧
      c.value m.step.1.timers = (m.register x).toNat) ∨
    (∀ x : Register, ¬ m.AtWord (c.word + 256 * x)) ∧
      c.value m.step.1.timers = c.value m.timers.tick.1 := by
  by_cases hset : ∃ x : Register, m.AtWord (c.word + 256 * x)
  · obtain ⟨x, hx⟩ := hset
    refine .inl ⟨x, hx, ?_⟩
    rw [← c.encode_setting] at hx
    cases c <;> rw [step_of_execute hm hx rfl] <;> rfl
  · have hno : ∀ x : Register, ¬ m.AtWord (c.word + 256 * x) := fun x hx => hset ⟨x, hx⟩
    refine .inr ⟨hno, ?_⟩
    rcases step_outcome hm with ⟨f, hs⟩ | ⟨i, m', hi, ho, hs⟩
    · rw [hs]
      rfl
    · rw [hs]
      cases ho with
      | setDelay x =>
        cases c with
        | delay => exact absurd hi (hno x)
        | sound => rfl
      | setSound x =>
        cases c with
        | delay => rfl
        | sound => exact absurd hi (hno x)
      | _ => rfl

/-- Every step is counted, accumulated and made at the same speed. -/
theorem step_clock {m : Machine σ} (hm : m.fault = none) :
    m.step.1.ticks = m.ticks + 1 ∧
    m.step.1.timers.accumulator = m.timers.tick.1.accumulator ∧
    m.step.1.timers.speed = m.timers.speed := by
  have hspeed := m.tick_speed
  have hticks : m.ticks = m.steps := by
    unfold ticks halted
    rw [hm]
    rfl
  rw [hticks]
  rcases step_outcome hm with ⟨f, hs⟩ | ⟨i, m', -, ho, hs⟩
  · rw [hs]
    exact ⟨rfl, rfl, hspeed⟩
  · rw [hs]
    have hkept : m'.steps = m.steps ∧ m'.fault = none ∧
        m'.timers.accumulator = m.timers.tick.1.accumulator ∧
        m'.timers.speed = m.timers.speed := by
      cases ho <;> exact ⟨rfl, hm, rfl, hspeed⟩
    obtain ⟨hsteps, hfault, hacc, hspeed'⟩ := hkept
    refine ⟨?_, hacc, hspeed'⟩
    unfold ticks halted
    dsimp only
    rw [hsteps, hfault]
    rfl

theorem clocked_step {speed : Speed} {es : List (Machine σ)} {m : Machine σ}
    (hm : m.fault = none) (h : Clocked speed es m) : Clocked speed (es ++ [m]) m.step.1 := by
  obtain ⟨hticks, hacc, hspeed⟩ := step_clock hm
  have hlength : (es ++ [m]).length = es.length + 1 := List.length_append
  obtain ⟨hacc', hcounter⟩ := Timers.tick_after (t := m.timers) (k := es.length)
    (by rw [h.speed_eq]; exact h.accumulator)
  rw [h.speed_eq] at hacc' hcounter
  refine ⟨hspeed.trans h.speed_eq, ?_, ?_, fun c => ?_⟩
  · rw [hticks, h.ticks_eq, hlength]
  · rw [hacc, hacc', hlength]
  · rw [hlength]
    rcases step_counter hm c with ⟨x, hx, hvalue⟩ | ⟨hno, hvalue⟩
    · rw [hvalue]
      exact runsDown_of_set hx
    · rw [hvalue, hcounter]
      exact runsDown_of_not_set (Nat.succ_pos _) (h.counter c) hno

theorem clocked_traced (speed : Speed) : Traced (Clocked speed (σ := σ)) where
  step _ _ hm h := clocked_step hm h
  keypad _ _ _ h := { h with }
  memory _ _ _ h := { h with }

/--
**The timers in closed form.** On every run since a machine was built or last reset, `k` steps long
if the one that stopped it is counted: the accumulator is `k` modulo the period, and each counter is
what was written to it last less the multiples of the period passed since, or zero if nothing was
written. The tone is on as long as the second counter is positive.
-/
theorem timers_after (program : Program) (speed : Speed) (source : σ) :
    ∃ m₀ : Machine σ,
      build (.bytes program.bytes) (.int speed.perSecond) source = .ok m₀ ∧
      ∀ start : Machine σ, (start = m₀ ∨ ∃ before, start = (m₀.after before).reset) →
      ∀ calls : List HostCall, .reset ∉ calls →
        let m := start.after calls
        let es := start.stepped calls
        let period := speed.perSecond / 60 + 1
        let k := m.steps + if m.halted then 1 else 0
        es.length = k ∧
        m.timers.accumulator = k % period ∧
        RunsDown 0xF015 period k es m.timers.delay ∧
        RunsDown 0xF018 period k es m.timers.sound ∧
        (m.timers.soundActive = true ↔ 0 < m.timers.sound) := by
  refine ⟨_, build_new program speed source, fun start hstart calls hreset => ?_⟩
  have hfresh : ∃ source' : σ, start = new program speed source' := by
    rcases hstart with rfl | ⟨before, rfl⟩
    · exact ⟨source, rfl⟩
    · exact ⟨_, reset_after program speed source before⟩
  obtain ⟨source', rfl⟩ := hfresh
  have h := (clocked_traced speed).after hreset (clocked_new program speed source')
  rw [List.nil_append] at h
  intro m es period k
  have hk : k = es.length := h.ticks_eq
  rw [hk]
  exact ⟨rfl, h.accumulator, h.counter .delay, h.counter .sound, decide_eq_true_iff⟩

/-- A step that faults has ticked: the counter set by the second step is down by one. -/
theorem timers_after_fault :
    ∃ m₀ : Machine RepeatingBytes,
      build (.bytes [0x60, 0x05, 0xF0, 0x15, 0x00, 0x00]) (.int 30) (.ofList []) = .ok m₀ ∧
      HostCall.reset ∉ [HostCall.step, .step, .step] ∧
      LastSet 0xF015 (m₀.stepped [.step, .step, .step]) 2 5 ∧
      (m₀.after [.step, .step, .step]).steps = 2 ∧
      (m₀.after [.step, .step, .step]).halted = true ∧
      (m₀.after [.step, .step, .step]).timers.delay = 4 := by
  obtain ⟨m₀, hbuild, h⟩ := timers_after ⟨[0x60, 0x05, 0xF0, 0x15, 0x00, 0x00], by decide⟩
    ⟨30, by decide⟩ (RepeatingBytes.ofList [])
  have hm₀ : m₀ = new ⟨[0x60, 0x05, 0xF0, 0x15, 0x00, 0x00], by decide⟩ ⟨30, by decide⟩
    (.ofList []) := Except.ok.inj (hbuild.symm.trans rfl)
  have hreset : HostCall.reset ∉ [HostCall.step, .step, .step] := by decide
  obtain ⟨-, -, hdelay, -, -⟩ := h m₀ (.inl rfl) [.step, .step, .step] hreset
  obtain ⟨h₁, h₂, h₃, hword, hvalue, hlast, hsteps, hhalted⟩ :
      m₀.fault = none ∧ m₀.step.1.fault = none ∧ m₀.step.1.step.1.fault = none ∧
        (m₀.step.1.pc ≤ 0xFFE ∧ m₀.step.1.word = 0xF015 + 256 * (0x0 : Register)) ∧
        (5 : UInt8) = m₀.step.1.register 0x0 ∧ m₀.step.1.step.1.word = 0x0000 ∧
        (m₀.after [.step, .step, .step]).steps = 2 ∧
        (m₀.after [.step, .step, .step]).halted = true := by
    rw [hm₀]
    decide +kernel
  have hset : LastSet 0xF015 (m₀.stepped [.step, .step, .step]) 2 5 := by
    rw [stepped_step h₁, stepped_step h₂, stepped_step h₃]
    refine ⟨[m₀], m₀.step.1, [m₀.step.1.step.1], rfl, rfl, ⟨0x0, hword, hvalue⟩, ?_⟩
    intro e' he' x hx
    rw [List.mem_singleton.mp he'] at hx
    have := hlast.symm.trans hx.2
    omega
  refine ⟨m₀, hbuild, hreset, hset, hsteps, hhalted, ?_⟩
  rw [hdelay.1 2 5 hset, hsteps, hhalted]
  rfl

end Machine

end ChipEight
