import ChipEight.Proofs.Bounds
import ChipEight.Proofs.StepByStep
import ChipEight.Proofs.Countdown

/-!
# How fast the timers run

A host that runs sixty frames a second expects the counters to go down sixty times a second. They do
not quite: a frame and the period of the timers are both derived from the speed, and the period is one
step longer than a frame, unless the speed is so low that a frame has to be given a step of its own. So
the counters fall behind by one frame in every period, and the account of it (`Rated`) is one of
remainders: the accumulator at the start and the steps since then, divided by the period.
-/

namespace ChipEight

/-- A tick counts if it takes the number of steps over a multiple of the period. -/
theorem Timers.div_tick {t : Timers} {k : Nat} (h : t.accumulator = k % t.speed.period) :
    (k + 1) / t.speed.period = k / t.speed.period + if t.tick.2 then 1 else 0 := by
  have hperiod : 0 < t.speed.period := Nat.succ_pos _
  rcases succ_div_cases k hperiod with ⟨hlt, -, hdiv⟩ | ⟨heq, -, hdiv⟩
  · have hle : t.accumulator + 1 ≤ t.speed.stepsPerTick := by
      unfold Speed.period at h hlt
      omega
    rw [tick, if_pos hle, hdiv]
    rfl
  · have hle : ¬ t.accumulator + 1 ≤ t.speed.stepsPerTick := by
      unfold Speed.period at h heq
      omega
    rw [tick, if_neg hle, hdiv]
    rfl

/-- Both counters go down on a tick that counts, and on no other. -/
theorem Timers.value_tick (t : Timers) (c : Counter) :
    c.value t.tick.1 = if t.tick.2 then countDown (c.value t) else c.value t := by
  rw [tick]
  split <;> cases c <;> rfl

/-- Of numbers that are no more than one, the zeros are what is missing from their sum. -/
theorem count_zero_add_sum {ns : List Nat} (h : ∀ n ∈ ns, n ≤ 1) :
    ns.count 0 + ns.sum = ns.length := by
  induction ns with
  | nil => rfl
  | cons n ns ih =>
    have hn := h n List.mem_cons_self
    have hrest := ih fun k hk => h k (List.mem_cons_of_mem n hk)
    obtain rfl | rfl : n = 0 ∨ n = 1 := by omega
    · rw [List.count_cons_self, List.sum_cons, List.length_cons]
      omega
    · rw [List.count_cons_of_ne (by decide), List.sum_cons, List.length_cons]
      omega

/-- What a host may do that lets the machine run in frames of a sixtieth of a second, if at all. -/
def HostCall.KeepsRate (c : HostCall) : Prop := c = .frame 60 ∨ c.runs = false ∧ c ≠ .reset

theorem HostCall.KeepsRate.ne_reset {c : HostCall} (h : c.KeepsRate) : c ≠ .reset := by
  rcases h with rfl | ⟨-, hc⟩
  · nofun
  · exact hc

namespace Machine

variable {σ : Type}

/-- On how many of these steps the counters go down. -/
def ticksOn (es : List (Machine σ)) : Nat := es.countP fun e => e.timers.tick.2

theorem ticksOn_concat (es : List (Machine σ)) (m : Machine σ) :
    ticksOn (es ++ [m]) = ticksOn es + if m.timers.tick.2 then 1 else 0 := by
  cases h : m.timers.tick.2 <;> simp [ticksOn, h]

/-! ## Steps and ticks -/

/-- The timers after the steps `es` of a run that began at `m₀`. -/
structure Rated (m₀ : Machine σ) (es : List (Machine σ)) (m : Machine σ) : Prop where
  speed_eq : m.timers.speed = m₀.timers.speed
  accumulator : m.timers.accumulator =
    (m₀.timers.accumulator + es.length) % m₀.timers.speed.period
  ticks : ticksOn es = (m₀.timers.accumulator + es.length) / m₀.timers.speed.period
  /-- A counter that is not set loses one with each tick, as long as there is something to lose. -/
  counter : ∀ c : Counter, (∀ e ∈ es, ∀ x : Register, ¬ e.AtWord (c.word + 256 * x)) →
    c.value m.timers = max 0 (c.value m₀.timers - ticksOn es)

theorem accumulator_lt_period {speed : Speed} {m : Machine σ} (h : Bounds speed m) :
    m.timers.accumulator < m.timers.speed.period := by
  rw [h.speed_eq]
  exact Nat.lt_succ_of_le h.accumulator_le

theorem value_nonneg {speed : Speed} {m : Machine σ} (h : Bounds speed m) (c : Counter) :
    0 ≤ c.value m.timers := by
  cases c with
  | delay => exact h.delay.1
  | sound => exact h.sound.1

/-- The account of any machine that stays in bounds can be opened. -/
theorem rated_of_bounds {speed : Speed} {m : Machine σ} (h : Bounds speed m) : Rated m [] m where
  speed_eq := rfl
  accumulator := (Nat.mod_eq_of_lt (accumulator_lt_period h)).symm
  ticks := (Nat.div_eq_of_lt (accumulator_lt_period h)).symm
  counter c _ := by
    have hvalue := value_nonneg h c
    show _ = max 0 (c.value m.timers - 0)
    omega

variable [RandomSource σ]

theorem rated_step {m₀ m : Machine σ} {es : List (Machine σ)} (hm : m.fault = none)
    (h : Rated m₀ es m) : Rated m₀ (es ++ [m]) m.step.1 := by
  obtain ⟨-, hacc, hspeed⟩ := step_clock hm
  have hlength : (es ++ [m]).length = es.length + 1 := List.length_append
  have hbefore : m.timers.accumulator =
      (m₀.timers.accumulator + es.length) % m.timers.speed.period := by
    rw [h.speed_eq]
    exact h.accumulator
  obtain ⟨hacc', -⟩ := Timers.tick_after hbefore
  have hdiv := Timers.div_tick hbefore
  rw [h.speed_eq] at hacc' hdiv
  constructor
  case speed_eq => exact hspeed.trans h.speed_eq
  case accumulator => rw [hacc, hacc', hlength, Nat.add_assoc]
  case ticks => rw [ticksOn_concat, hlength, h.ticks, ← Nat.add_assoc, hdiv]
  case counter =>
    intro c hno
    have hvalue := h.counter c fun e he => hno e (List.mem_append_left _ he)
    have hm' := hno m (List.mem_append_right _ List.mem_cons_self)
    rcases step_counter hm c with ⟨x, hx, -⟩ | ⟨-, htick⟩
    · exact absurd hx (hm' x)
    · rw [htick, m.timers.value_tick, hvalue, ticksOn_concat]
      unfold Timers.countDown
      by_cases hcounts : m.timers.tick.2 = true
      · rw [if_pos hcounts, if_pos hcounts]
        split <;> omega
      · rw [if_neg hcounts, if_neg hcounts, Nat.add_zero]

theorem rated_traced (m₀ : Machine σ) : Traced (Rated m₀) where
  step _ _ hm h := rated_step hm h
  keypad _ _ _ h := { h with }
  memory _ _ _ h := { h with }

/-! ## Frames -/

theorem length_steppedIn_le (m : Machine σ) (n : Nat) : (m.steppedIn n).length ≤ n := by
  induction n generalizing m with
  | zero => exact Nat.le_refl 0
  | succ n ih =>
    cases hm : m.fault with
    | some f =>
      rw [steppedIn_of_fault hm]
      exact Nat.zero_le _
    | none =>
      rw [steppedIn, hm]
      exact Nat.succ_le_succ (ih _)

/-- A frame that does not stop the machine makes all of its steps. -/
theorem length_steppedIn {m : Machine σ} {n : Nat} {redraw : Bool}
    (h : (m.runSteps n redraw).1.fault = none) : (m.steppedIn n).length = n := by
  induction n generalizing m redraw with
  | zero => rfl
  | succ n ih =>
    cases hm : m.fault with
    | some f =>
      rw [runSteps, step_of_fault hm, hm] at h
      cases h
    | none =>
      rw [steppedIn, hm]
      rw [runSteps] at h
      rcases hs : m.step with ⟨m', f | now⟩
      · have hstopped := fault_of_step_error (m := m) (f := f) (by rw [hs])
        rw [hs] at h hstopped
        rw [hstopped] at h
        cases h
      · rw [hs] at h
        exact congrArg (· + 1) (ih h)

/-- A machine that runs in the end has run all the time. -/
theorem running_of_after {m : Machine σ} {calls : List HostCall} (hreset : .reset ∉ calls)
    (h : (m.after calls).fault = none) : m.fault = none := by
  cases hm : m.fault with
  | none => rfl
  | some f =>
    rw [after_of_fault hm hreset] at h
    cases hm.symm.trans h

/-- On how many steps the counters go down, for each frame that a host makes. -/
def frameTicks (m : Machine σ) : List HostCall → List Nat
  | [] => []
  | c :: cs =>
    (if c = .frame 60 then [ticksOn (m.steppedBy c)] else []) ++ (m.perform c).1.frameTicks cs

/-- No frame is as long as two periods, so the counters go down once in it at most. -/
theorem ticksOn_frame_le_one {speed : Speed} {m : Machine σ} (h : Bounds speed m) :
    ticksOn (m.steppedBy (.frame 60)) ≤ 1 := by
  have hrated := (rated_traced m).perform (c := .frame 60) nofun (rated_of_bounds h)
  have hlength : (m.steppedBy (.frame 60)).length ≤ max 1 (m.timers.speed.perSecond / 60) :=
    m.length_steppedIn_le _
  have hacc := accumulator_lt_period h
  rw [List.nil_append] at hrated
  rw [hrated.ticks]
  unfold Speed.period Speed.stepsPerTick timerRate at hacc ⊢
  refine Nat.le_of_lt_succ ((Nat.div_lt_iff_lt_mul (Nat.succ_pos _)).mpr ?_)
  omega

section

variable {calls : List HostCall}

theorem length_frameTicks (m : Machine σ) :
    (m.frameTicks calls).length = calls.count (.frame 60) := by
  induction calls generalizing m with
  | nil => rfl
  | cons c cs ih =>
    rw [frameTicks, List.length_append, ih]
    by_cases hc : c = .frame 60
    · rw [hc, if_pos rfl, List.count_cons_self, List.length_singleton, Nat.add_comm]
    · rw [if_neg hc, List.count_cons_of_ne hc, List.length_nil, Nat.zero_add]

theorem frameTicks_le_one {speed : Speed} {m : Machine σ} (h : Bounds speed m) :
    ∀ t ∈ m.frameTicks calls, t ≤ 1 := by
  induction calls generalizing m with
  | nil =>
    intro t ht
    cases ht
  | cons c cs ih =>
    intro t ht
    rcases List.mem_append.mp ht with ht | ht
    · split at ht
      · rename_i hc
        rw [List.mem_singleton.mp ht, hc]
        exact ticksOn_frame_le_one h
      · cases ht
    · exact ih ((bounds_kept speed).perform c h) t ht

/-- Where nothing else lets the machine run, all ticks are ticks of frames. -/
theorem sum_frameTicks {m : Machine σ}
    (hcalls : ∀ c ∈ calls, c.KeepsRate) :
    (m.frameTicks calls).sum = ticksOn (m.stepped calls) := by
  induction calls generalizing m with
  | nil => rfl
  | cons c cs ih =>
    have hrest := @ih (m.perform c).1 fun d hd => hcalls d (List.mem_cons_of_mem c hd)
    have hticks : ticksOn (m.stepped (c :: cs)) =
        ticksOn (m.steppedBy c) + ticksOn ((m.perform c).1.stepped cs) :=
      List.countP_append
    rw [frameTicks, List.sum_append, hrest, hticks]
    rcases hcalls c List.mem_cons_self with rfl | ⟨hruns, -⟩
    · rw [if_pos rfl, List.sum_singleton]
    · have hc : c ≠ .frame 60 := fun h => by cases h ▸ hruns
      rw [if_neg hc, m.steppedBy_of_not_runs hruns]
      rfl

/-- Frames that do not stop the machine make all of their steps. -/
theorem length_stepped {m : Machine σ}
    (hcalls : ∀ c ∈ calls, c.KeepsRate)
    (hgoes : (m.after calls).fault = none) :
    (m.stepped calls).length =
      calls.count (.frame 60) * max 1 (m.timers.speed.perSecond / 60) := by
  induction calls generalizing m with
  | nil => exact (Nat.zero_mul _).symm
  | cons c cs ih =>
    have hcs : ∀ d ∈ cs, d.KeepsRate := fun d hd => hcalls d (List.mem_cons_of_mem c hd)
    have hspeed : (m.perform c).1.timers.speed = m.timers.speed :=
      ((built_kept m.program m.timers.speed).perform c ⟨rfl, rfl⟩).2
    have hrest := ih hcs hgoes
    rw [hspeed] at hrest
    rw [stepped, List.length_append, hrest]
    rcases hcalls c List.mem_cons_self with rfl | ⟨hruns, -⟩
    · have hreset : .reset ∉ cs := fun h => (hcs _ h).ne_reset rfl
      have hrunning : (m.frame 60).1.fault = none := running_of_after hreset hgoes
      have hframe : (m.steppedBy (.frame 60)).length = max 1 (m.timers.speed.perSecond / 60) :=
        length_steppedIn hrunning
      rw [List.count_cons_self, hframe, Nat.add_one_mul, Nat.add_comm]
    · have hc : c ≠ .frame 60 := fun h => by cases h ▸ hruns
      rw [List.count_cons_of_ne hc, m.steppedBy_of_not_runs hruns, List.length_nil, Nat.zero_add]

end

/--
**The timers fall behind by one frame in every period.** A host makes frames at sixty a second, and
may move keys and write to memory between them; no frame stops the machine. The counters go down as
often as the accumulator at the start and the steps of all frames make up full periods. They never go
down twice in one frame. At less than sixty steps a second they go down in every frame; else, of as
many frames in a row as a period has steps, there is exactly one in which they do not. A counter that
no step sets loses that number, or all it has.
-/
theorem counters_in_frames (program : Program) (speed : Speed) (source : σ) :
    ∃ m₀ : Machine σ,
      build (.bytes program.bytes) (.int speed.perSecond) source = .ok m₀ ∧
      ∀ before : List HostCall,
        let m := m₀.after before
        ticksOn (m.steppedBy (.frame 60)) ≤ 1 ∧
        ∀ calls : List HostCall,
          (∀ c ∈ calls, c.KeepsRate) →
          (m.after calls).fault = none →
          let frames := calls.count (.frame 60)
          let T := speed.perSecond / 60
          let n := (m.timers.accumulator + frames * max 1 T) / (T + 1)
          ticksOn (m.stepped calls) = n ∧
          ((m.frameTicks calls).length = frames ∧ ∀ t ∈ m.frameTicks calls, t ≤ 1) ∧
          (speed.perSecond < 60 → ∀ t ∈ m.frameTicks calls, t = 1) ∧
          (60 ≤ speed.perSecond → frames = T + 1 → (m.frameTicks calls).count 0 = 1) ∧
          ∀ c : Counter, (∀ e ∈ m.stepped calls, ∀ x : Register, ¬ e.AtWord (c.word + 256 * x)) →
            c.value (m.after calls).timers = c.value m.timers - min (c.value m.timers) n := by
  refine ⟨_, build_new program speed source, fun before => ?_⟩
  intro m
  have hbounds : Bounds speed m := (bounds_kept speed).after (bounds_new program speed source) before
  refine ⟨ticksOn_frame_le_one hbounds, fun calls hcalls hgoes => ?_⟩
  intro frames T n
  have hreset : .reset ∉ calls := fun h => (hcalls _ h).ne_reset rfl
  have hrated := (rated_traced m).after hreset (rated_of_bounds hbounds)
  rw [List.nil_append] at hrated
  have hticks : ticksOn (m.stepped calls) = n := by
    rw [hrated.ticks, length_stepped hcalls hgoes, hbounds.speed_eq]
    rfl
  have hone : ∀ t ∈ m.frameTicks calls, t ≤ 1 := frameTicks_le_one hbounds
  have hlength : (m.frameTicks calls).length = frames := m.length_frameTicks
  -- the frames without a tick are what is missing from the ticks
  have hmissing : (m.frameTicks calls).count 0 + n = frames := by
    rw [← hlength, ← hticks, ← sum_frameTicks hcalls]
    exact count_zero_add_sum hone
  have hacc : m.timers.accumulator ≤ T := hbounds.accumulator_le
  refine ⟨hticks, ⟨hlength, hone⟩, fun hslow t ht => ?_, fun hfast hframes => ?_, fun c hno => ?_⟩
  · have hT : T = 0 := Nat.div_eq_of_lt hslow
    have hn : n = frames := by
      show (m.timers.accumulator + frames * max 1 T) / (T + 1) = frames
      rw [hT, Nat.zero_add, Nat.div_one, Nat.max_zero]
      omega
    have hnone : 0 ∉ m.frameTicks calls := List.count_eq_zero.mp (by omega)
    have hle := hone t ht
    have hne : t ≠ 0 := fun h => hnone (h ▸ ht)
    omega
  · have hT : 1 ≤ T := (Nat.le_div_iff_mul_le (by decide)).mpr hfast
    have hn : n = T := by
      show (m.timers.accumulator + frames * max 1 T) / (T + 1) = T
      rw [hframes, Nat.max_eq_right hT, Nat.add_mul_div_left _ _ (Nat.succ_pos T),
        Nat.div_eq_of_lt (Nat.lt_succ_of_le hacc), Nat.zero_add]
    omega
  · rw [hrated.counter c hno, hticks]
    have hvalue := value_nonneg hbounds c
    omega

/-- At two steps a frame and three a period, the third frame is the one without a tick. -/
theorem counters_in_frames_third_spared :
    ∃ m₀ : Machine RepeatingBytes,
      build (.bytes [0x60, 0x05, 0xF0, 0x15, 0x12, 0x04]) (.int 120) (.ofList []) = .ok m₀ ∧
      let m := m₀.after [.frame 60]
      let calls := [HostCall.frame 60, .press 5, .frame 60, .frame 60]
      (m.timers.accumulator = 2 ∧ m.timers.delay = 5) ∧
      ((∀ c ∈ calls, c.KeepsRate) ∧ (m.after calls).fault = none ∧
        ∀ e ∈ m.stepped calls, ∀ x : Register, ¬ e.AtWord (0xF015 + 256 * x)) ∧
      m.frameTicks calls = [1, 1, 0] ∧ (m.frameTicks calls).count 0 = 1 ∧
      (m.after calls).timers.delay = 3 := by
  obtain ⟨m₀, hbuild, h⟩ := counters_in_frames ⟨[0x60, 0x05, 0xF0, 0x15, 0x12, 0x04], by decide⟩
    ⟨120, by decide⟩ (RepeatingBytes.ofList [])
  have hm₀ : m₀ = new ⟨[0x60, 0x05, 0xF0, 0x15, 0x12, 0x04], by decide⟩ ⟨120, by decide⟩
    (.ofList []) := Except.ok.inj (hbuild.symm.trans rfl)
  obtain ⟨-, h⟩ := h [.frame 60]
  obtain ⟨m, hm⟩ : ∃ m, m = m₀.after [.frame 60] := ⟨_, rfl⟩
  rw [← hm] at h
  obtain ⟨hstart, hgoes, hwords, hticks⟩ :
      (m.timers.accumulator = 2 ∧ m.timers.delay = 5) ∧
      (m.after [.frame 60, .press 5, .frame 60, .frame 60]).fault = none ∧
      (∀ e ∈ m.stepped [.frame 60, .press 5, .frame 60, .frame 60], e.word = 0x1204) ∧
      m.frameTicks [.frame 60, .press 5, .frame 60, .frame 60] = [1, 1, 0] := by
    rw [hm, hm₀]
    decide +kernel
  have hcalls : ∀ c ∈ [HostCall.frame 60, .press 5, .frame 60, .frame 60], c.KeepsRate := by
    intro c hc
    simp only [List.mem_cons, List.not_mem_nil, or_false] at hc
    rcases hc with rfl | rfl | rfl | rfl
    · exact .inl rfl
    · exact .inr ⟨rfl, nofun⟩
    · exact .inl rfl
    · exact .inl rfl
  have hunset : ∀ e ∈ m.stepped [.frame 60, .press 5, .frame 60, .frame 60], ∀ x : Register,
      ¬ e.AtWord (0xF015 + 256 * x) := by
    intro e he x hx
    have := (hwords e he).symm.trans hx.2
    omega
  obtain ⟨-, -, -, hspared, hcounter⟩ := h _ hcalls hgoes
  have hdelay := hcounter .delay hunset
  refine ⟨m₀, hbuild, ?_⟩
  rw [← hm]
  refine ⟨hstart, ⟨hcalls, hgoes, hunset⟩, hticks, hspared (by decide) rfl, ?_⟩
  refine hdelay.trans ?_
  show m.timers.delay - min m.timers.delay (((m.timers.accumulator + _) / _ : Nat) : Int) = 3
  rw [hstart.1, hstart.2]
  rfl

end Machine

end ChipEight
