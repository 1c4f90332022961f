import ChipEight.Proofs.Cycle
import ChipEight.Proofs.History

/-!
# The steps of a history

A list of calls makes a machine step a number of times: once for a step, many times for a frame,
never for the rest, and not at all once it has stopped. `stepped` records these steps by the
machines that take them, each as it is just before. What is to be said of a run and of all that
happened on it (how often, when last, until when) is said of this record, and is carried along the
run by what a single step does to it (`Traced`). Where a host is held to some of its calls, the
property only has to bear these (`TracedUnder`).
-/

namespace ChipEight

/-- What is found last, as far as a search goes back: one more entry is found first or ends it. -/
theorem findSome?_since_concat {α β : Type} (passes : α → Bool) (f : α → Option β) (xs : List α)
    (x : α) :
    ((xs ++ [x]).reverse.takeWhile passes).findSome? f =
      if passes x then (f x).or ((xs.reverse.takeWhile passes).findSome? f) else none := by
  rw [List.reverse_append, List.reverse_singleton, List.singleton_append, List.takeWhile_cons]
  split
  · rw [List.findSome?_cons]
    cases f x <;> rfl
  · rfl

namespace Machine

variable {σ : Type} [RandomSource σ]

/-- The machines that take the next `n` steps. -/
def steppedIn (m : Machine σ) : Nat → List (Machine σ)
  | 0 => []
  | n + 1 =>
    match m.fault with
    | some _ => []
    | none => m :: m.step.1.steppedIn n

/-- The machines that take the steps of a call. -/
def steppedBy (m : Machine σ) : HostCall → List (Machine σ)
  | .step => m.steppedIn 1
  | .frame fps =>
    if fps ≤ 0 then [] else m.steppedIn (m.timers.speed.stepsPerFrame fps.toNat)
  | _ => []

/-- The machines that take the steps of a list of calls, in their order. -/
def stepped (m : Machine σ) : List HostCall → List (Machine σ)
  | [] => []
  | c :: cs => m.steppedBy c ++ (m.perform c).1.stepped cs

theorem steppedIn_of_fault {m : Machine σ} {f : Fault} (h : m.fault = some f) (n : Nat) :
    m.steppedIn n = [] := by
  cases n with
  | zero => rfl
  | succ n => rw [steppedIn, h]

/-- A stopped machine makes no steps. -/
theorem steppedBy_of_fault {m : Machine σ} {f : Fault} (h : m.fault = some f) (c : HostCall) :
    m.steppedBy c = [] := by
  cases c with
  | step => exact steppedIn_of_fault h 1
  | frame fps =>
    rw [steppedBy]
    split
    · rfl
    · exact steppedIn_of_fault h _
  | _ => rfl

theorem steppedBy_of_not_runs (m : Machine σ) {c : HostCall} (hc : c.runs = false) :
    m.steppedBy c = [] := by
  cases c with
  | step => cases hc
  | frame fps => cases hc
  | _ => rfl

theorem stepped_of_not_runs (m : Machine σ) {c : HostCall} (hc : c.runs = false)
    (cs : List HostCall) : m.stepped (c :: cs) = (m.perform c).1.stepped cs := by
  rw [stepped, m.steppedBy_of_not_runs hc, List.nil_append]

theorem stepped_step {m : Machine σ} (h : m.fault = none) (cs : List HostCall) :
    m.stepped (.step :: cs) = m :: m.step.1.stepped cs := by
  rw [stepped, steppedBy, steppedIn, h]
  rfl

theorem fault_of_mem_steppedIn {m e : Machine σ} {n : Nat} (he : e ∈ m.steppedIn n) :
    e.fault = none := by
  induction n generalizing m with
  | zero => cases he
  | succ n ih =>
    cases hm : m.fault with
    | some f =>
      rw [steppedIn_of_fault hm] at he
      cases he
    | none =>
      rw [steppedIn, hm] at he
      rcases List.mem_cons.mp he with rfl | he
      · exact hm
      · exact ih he

/-- Only a machine that has not stopped takes a step. -/
theorem fault_of_mem_stepped {m e : Machine σ} {calls : List HostCall}
    (he : e ∈ m.stepped calls) : e.fault = none := by
  induction calls generalizing m with
  | nil => cases he
  | cons c cs ih =>
    rcases List.mem_append.mp he with he | he
    · cases c with
      | step => exact fault_of_mem_steppedIn he
      | frame fps =>
        rw [steppedBy] at he
        split at he
        · cases he
        · exact fault_of_mem_steppedIn he
      | _ => cases he
    · exact ih he

/-- A step that fails stops the machine. -/
theorem fault_of_step_error {m : Machine σ} {f : Fault} (h : m.step.2 = .error f) :
    m.step.1.fault = some f := by
  cases hm : m.fault with
  | some g =>
    rw [step_of_fault hm] at h ⊢
    cases h
    exact hm
  | none =>
    rcases step_cases hm with ⟨g, -, -, hs⟩ | ⟨i, m', -, -, hs⟩
    · rw [hs] at h ⊢
      cases h
      rfl
    · rw [hs] at h
      cases h

/-- Where a list with one more entry is cut, that entry is the one behind the cut or the last of
those that follow. -/
theorem concat_cases {α : Type} {xs before later : List α} {x y : α}
    (h : xs ++ [x] = before ++ y :: later) :
    (later = [] ∧ before = xs ∧ y = x) ∨
    ∃ rest, later = rest ++ [x] ∧ xs = before ++ y :: rest := by
  rcases List.eq_nil_or_concat later with rfl | ⟨rest, last, rfl⟩
  · obtain ⟨rfl, hlast⟩ := List.append_inj' h rfl
    cases hlast
    exact .inl ⟨rfl, rfl, rfl⟩
  · rw [List.concat_eq_append, ← List.cons_append, ← List.append_assoc] at h
    obtain ⟨rfl, hlast⟩ := List.append_inj' h rfl
    cases hlast
    exact .inr ⟨rest, List.concat_eq_append, rfl⟩

/-! ## Carrying a property along a run -/

/-- A property of a machine together with the steps taken so far, on runs whose calls are `allowed`:
a further step keeps it, and so does an allowed call that lets the machine make none. -/
structure TracedUnder (allowed : HostCall → Prop) (Q : List (Machine σ) → Machine σ → Prop) :
    Prop where
  step : ∀ es m, m.fault = none → Q es m → Q (es ++ [m]) m.step.1
  other : ∀ es m c, allowed c → c.runs = false → Q es m → Q es (m.perform c).1

/-- A property of a machine together with the steps taken so far: a further step keeps it, and it
asks nothing of the keypad and of memory, which are open to the host. -/
structure Traced (Q : List (Machine σ) → Machine σ → Prop) : Prop where
  step : ∀ es m, m.fault = none → Q es m → Q (es ++ [m]) m.step.1
  keypad : ∀ es m p, Q es m → Q es { m with keypad := p }
  memory : ∀ es m b, Q es m → Q es { m with memory := b }

variable {Q : List (Machine σ) → Machine σ → Prop} {allowed : HostCall → Prop}

theorem TracedUnder.runSteps (hQ : TracedUnder allowed Q) (n : Nat) (redraw : Bool)
    {es : List (Machine σ)} {m : Machine σ} (h : Q es m) :
    Q (es ++ m.steppedIn n) (m.runSteps n redraw).1 := by
  induction n generalizing es m redraw with
  | zero => rwa [steppedIn, List.append_nil]
  | succ n ih =>
    cases hm : m.fault with
    | some f =>
      rw [steppedIn_of_fault hm, Machine.runSteps, step_of_fault hm, List.append_nil]
      exact h
    | none =>
      have hs := hQ.step es m hm h
      have hfault : ∀ f, m.step.2 = .error f → m.step.1.fault = some f :=
        fun f => fault_of_step_error
      rw [steppedIn, hm, Machine.runSteps]
      dsimp only
      -- the steps behind this one are those of the machine that it leaves
      rw [← List.singleton_append, ← List.append_assoc]
      rcases hstep : m.step with ⟨m', now | now⟩ <;> rw [hstep] at hs hfault
      · rw [steppedIn_of_fault (hfault _ rfl), List.append_nil]
        exact hs
      · exact ih _ hs

theorem TracedUnder.perform (hQ : TracedUnder allowed Q) {c : HostCall} (hc : allowed c)
    {es : List (Machine σ)} {m : Machine σ} (h : Q es m) :
    Q (es ++ m.steppedBy c) (m.perform c).1 := by
  cases c with
  | step =>
    have hrun := hQ.runSteps 1 false h
    rw [Machine.runSteps] at hrun
    show Q (es ++ m.steppedIn 1) m.step.1
    rcases hs : m.step with ⟨m', now | now⟩ <;> rw [hs] at hrun <;> exact hrun
  | frame fps =>
    show Q (es ++ m.steppedBy (.frame fps)) (m.runFrame fps).1
    rw [steppedBy, runFrame]
    by_cases hfps : fps ≤ 0
    · rw [if_pos hfps, if_pos hfps, List.append_nil]
      exact h
    · rw [if_neg hfps, if_neg hfps]
      exact hQ.runSteps _ _ h
  | _ =>
    rw [m.steppedBy_of_not_runs rfl, List.append_nil]
    exact hQ.other es m _ hc rfl h

/-- **What a step keeps, a run keeps**, as long as every call is allowed. -/
theorem TracedUnder.after (hQ : TracedUnder allowed Q) {calls : List HostCall}
    (hcalls : ∀ c ∈ calls, allowed c) {es : List (Machine σ)} {m : Machine σ} (h : Q es m) :
    Q (es ++ m.stepped calls) (m.after calls) := by
  induction calls generalizing es m with
  | nil => rwa [stepped, List.append_nil]
  | cons c cs ih =>
    have hc := hcalls c List.mem_cons_self
    rw [stepped, ← List.append_assoc]
    exact ih (fun d hd => hcalls d (List.mem_cons_of_mem c hd)) (hQ.perform hc h)

/-- What asks nothing of the keypad and of memory is open to every call but a reset. -/
theorem Traced.under (hQ : Traced Q) : TracedUnder (· ≠ .reset) Q where
  step := hQ.step
  other := by
    intro es m c hc hruns h
    rw [m.perform_of_not_runs hruns hc]
    exact hQ.memory es _ (c.stores m.memory) (hQ.keypad es m (c.strikes m.keypad) h)

theorem Traced.perform (hQ : Traced Q) {c : HostCall} (hc : c ≠ .reset) {es : List (Machine σ)}
    {m : Machine σ} (h : Q es m) : Q (es ++ m.steppedBy c) (m.perform c).1 :=
  hQ.under.perform hc h

theorem Traced.after (hQ : Traced Q) {calls : List HostCall} (hreset : .reset ∉ calls)
    {es : List (Machine σ)} {m : Machine σ} (h : Q es m) :
    Q (es ++ m.stepped calls) (m.after calls) :=
  hQ.under.after (fun _ hc hr => hreset (hr ▸ hc)) h

/-- A fault is ended by nothing but a reset. -/
theorem fault_traced (f : Fault) : Traced fun _ (m : Machine σ) => m.fault = some f where
  step _ _ hm h := absurd (hm.symm.trans h) nofun
  keypad _ _ _ h := h
  memory _ _ _ h := h

/-- `Q` holds now and held before each of the steps taken so far. -/
def Throughout (Q : List (Machine σ) → Machine σ → Prop) (ds : List (Machine σ))
    (m : Machine σ) : Prop :=
  Q ds m ∧ ∀ es e later, ds = es ++ e :: later → e.fault = none ∧ Q es e

theorem TracedUnder.throughout (hQ : TracedUnder allowed Q) :
    TracedUnder allowed (Throughout Q) where
  step := by
    rintro ds m hm ⟨hd, hall⟩
    refine ⟨hQ.step ds m hm hd, fun es e later hds => ?_⟩
    -- either `m` takes the step in question, or it was taken before
    rcases concat_cases hds with ⟨-, rfl, rfl⟩ | ⟨rest, -, hes⟩
    · exact ⟨hm, hd⟩
    · exact hall es e rest hes
  other := fun ds m c hc hruns hd => ⟨hQ.other ds m c hc hruns hd.1, hd.2⟩

/-- **What a run keeps holds before each of its steps.** -/
theorem TracedUnder.before_step (hQ : TracedUnder allowed Q) {calls : List HostCall}
    (hcalls : ∀ c ∈ calls, allowed c) {m : Machine σ} (h : Q [] m) {es later : List (Machine σ)}
    {e : Machine σ} (he : m.stepped calls = es ++ e :: later) : e.fault = none ∧ Q es e := by
  have hstart : Throughout Q [] m := ⟨h, fun es e later hnil => by cases es <;> cases hnil⟩
  exact (hQ.throughout.after hcalls hstart).2 es e later he

theorem Traced.before_step (hQ : Traced Q) {calls : List HostCall} (hreset : .reset ∉ calls)
    {m : Machine σ} (h : Q [] m) {es later : List (Machine σ)} {e : Machine σ}
    (he : m.stepped calls = es ++ e :: later) : e.fault = none ∧ Q es e :=
  hQ.under.before_step (fun _ hc hr => hreset (hr ▸ hc)) h he

/-! ## From one step of a run to a later one -/

/-- `P` holds now if the step of `e`, which came behind the steps `early`, has been taken, and every
step since then has kept `P`. -/
def Since (P : Machine σ → Prop) (early : List (Machine σ)) (e : Machine σ)
    (ds : List (Machine σ)) (m : Machine σ) : Prop :=
  ∀ mid, ds = early ++ e :: mid → (∀ d ∈ mid, P d → P d.step.1) → P m

theorem since_under {P : Machine σ → Prop}
    (hother : ∀ m c, allowed c → c.runs = false → P m → P (m.perform c).1)
    (early : List (Machine σ)) {e : Machine σ} (hfirst : P e.step.1) :
    TracedUnder allowed (Since P early e) where
  step := by
    intro ds m _ hsince mid hds hkept
    -- either `m` takes the first step, or it takes the last of those that follow
    rcases concat_cases hds with ⟨-, -, rfl⟩ | ⟨rest, rfl, hrest⟩
    · exact hfirst
    · have hm : P m := hsince rest hrest fun d hd => hkept d (List.mem_append_left _ hd)
      exact hkept m (List.mem_append_right _ List.mem_cons_self) hm
  other := fun _ m c hc hruns hsince mid hds hkept => hother m c hc hruns (hsince mid hds hkept)

/-- **What the steps between keep**, and all calls that are allowed, holds before a step if it holds
behind an earlier one. -/
theorem kept_between_under {P : Machine σ → Prop}
    (hother : ∀ m c, allowed c → c.runs = false → P m → P (m.perform c).1) {calls : List HostCall}
    (hcalls : ∀ c ∈ calls, allowed c) {m₀ m m' : Machine σ} {early mid later : List (Machine σ)}
    (hrun : m₀.stepped calls = early ++ m :: (mid ++ m' :: later)) (hfirst : P m.step.1)
    (hmid : ∀ d ∈ mid, P d → P d.step.1) : P m' := by
  have hcut : m₀.stepped calls = (early ++ m :: mid) ++ m' :: later := by
    rw [hrun, List.append_assoc, List.cons_append]
  have hstart : Since P early m [] m₀ := by
    intro mid hnil
    cases early <;> cases hnil
  obtain ⟨-, hsince⟩ := (since_under hother early hfirst).before_step hcalls hstart hcut
  exact hsince mid rfl hmid

/-- The same for what asks nothing of the keypad and of memory. -/
theorem kept_between {P : Machine σ → Prop} (hkeypad : ∀ m p, P m → P { m with keypad := p })
    (hmemory : ∀ m b, P m → P { m with memory := b }) {calls : List HostCall}
    (hreset : .reset ∉ calls) {m₀ m m' : Machine σ} {early mid later : List (Machine σ)}
    (hrun : m₀.stepped calls = early ++ m :: (mid ++ m' :: later)) (hfirst : P m.step.1)
    (hmid : ∀ d ∈ mid, P d → P d.step.1) : P m' := by
  have hother : ∀ (m : Machine σ) (c : HostCall), c ≠ .reset → c.runs = false → P m →
      P (m.perform c).1 := by
    intro m c hc hruns h
    rw [m.perform_of_not_runs hruns hc]
    exact hmemory _ (c.stores m.memory) (hkeypad m (c.strikes m.keypad) h)
  exact kept_between_under hother (fun _ hc hr => hreset (hr ▸ hc)) hrun hfirst hmid

end Machine

end ChipEight
