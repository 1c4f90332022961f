import ChipEight.Machine.Host

/-!
# What a host can bring about

A machine is seen between two calls of its host. `after` is the machine that a list of calls
leaves, refused ones included, and `Reachable` collects all of these. A call that neither lets the
machine run nor resets it reaches memory or the keypad, and no more (`perform_of_not_runs`). So a
property is carried through every history by showing four things once (`Kept`): that a step keeps
it, that a reset keeps it, and that it asks nothing of the keypad and of memory.
-/

namespace ChipEight

namespace HostCall

/-- The calls that let a machine run. -/
def runs : HostCall → Bool
  | .step | .frame _ => true
  | _ => false

/-- The calls that move a key. -/
def movesKey : HostCall → Bool
  | .press _ | .release _ => true
  | _ => false

/-- What a call makes of memory, unless it is refused. -/
def stores (b : Memory) : HostCall → Memory
  | .load addr data => (b.load addr data).toOption.getD b
  | .poke addr value => (b.write addr value).toOption.getD b
  | _ => b

/-- What a call makes of the keypad, unless it is refused. -/
def strikes (p : Keypad) : HostCall → Keypad
  | .press key => (p.press key).toOption.getD p
  | .release key => (p.release key).toOption.getD p
  | _ => p

end HostCall

namespace Machine

variable {σ : Type}

/-- What a program and a speed are made of is never refused. -/
theorem build_new (program : Program) (speed : Speed) (source : σ) :
    build (.bytes program.bytes) (.int speed.perSecond) source =
      .ok (new program speed source) := by
  have hprogram : Program.ofImage (.bytes program.bytes) = .ok program := dif_pos program.fits
  have hspeed : Speed.ofValue (.int speed.perSecond) = .ok speed :=
    dif_pos (Int.natCast_pos.mpr speed.pos)
  rw [build, hprogram, hspeed]
  rfl

/-- Bytes that fit and a positive speed are never refused. -/
theorem build_eq_ok {data : List UInt8} (hdata : data.length ≤ 3584) {n : Int} (hn : 0 < n)
    (source : σ) :
    ∃ (program : Program) (speed : Speed), program.bytes = data ∧ speed.perSecond = n ∧
      build (.bytes data) (.int n) source = .ok (new program speed source) := by
  have hnat : (n.toNat : Int) = n := Int.toNat_of_nonneg (Int.le_of_lt hn)
  let speed : Speed := ⟨n.toNat, Speed.toNat_pos hn⟩
  have hbuild := build_new ⟨data, hdata⟩ speed source
  refine ⟨⟨data, hdata⟩, speed, rfl, hnat, ?_⟩
  rwa [hnat] at hbuild

/-- A machine that could be built is a new one. -/
theorem eq_new_of_build {image : Image} {speed : Value} {source : σ} {m : Machine σ}
    (h : build image speed source = .ok m) :
    ∃ (program : Program) (s : Speed), m = new program s source := by
  rw [build] at h
  cases hprogram : Program.ofImage image with
  | error e =>
    rw [hprogram] at h
    cases h
  | ok program =>
    rw [hprogram] at h
    cases hspeed : Speed.ofValue speed with
    | error e =>
      rw [hspeed] at h
      cases h
    | ok s =>
      rw [hspeed] at h
      cases h
      exact ⟨program, s, rfl⟩

/-- A call that is refused leaves `m`; one that is not leaves what it makes of its access. -/
theorem settle_fst {ε α : Type} {m : Machine σ} (wrap : ε → HostError) (access : Except ε α)
    (make : α → Machine σ) {a : α} (ha : make a = m) :
    (m.settle wrap (do let b ← access; return make b)).1 = make (access.toOption.getD a) := by
  cases access with
  | error e => exact ha.symm
  | ok b => rfl

variable [RandomSource σ]

/-- **What is open to the host** is memory and the keypad. -/
theorem perform_of_not_runs (m : Machine σ) {c : HostCall} (hruns : c.runs = false)
    (hreset : c ≠ .reset) :
    (m.perform c).1 = { m with memory := c.stores m.memory, keypad := c.strikes m.keypad } := by
  cases c with
  | step | frame fps => cases hruns
  | reset => exact absurd rfl hreset
  | press key => exact settle_fst _ (m.keypad.press key) _ rfl
  | release key => exact settle_fst _ (m.keypad.release key) _ rfl
  | load addr data => exact settle_fst _ (m.memory.load addr data) _ rfl
  | poke addr value => exact settle_fst _ (m.memory.write addr value) _ rfl

theorem perform_of_movesKey (m : Machine σ) {c : HostCall} (hc : c.movesKey = true) :
    ∃ p, (m.perform c).1 = { m with keypad := p } := by
  cases c with
  | press key => exact ⟨_, m.perform_of_not_runs (c := .press key) rfl nofun⟩
  | release key => exact ⟨_, m.perform_of_not_runs (c := .release key) rfl nofun⟩
  | _ => cases hc

/-- The machine after a list of calls, in their order. -/
def after (m : Machine σ) : List HostCall → Machine σ
  | [] => m
  | c :: cs => (m.perform c).1.after cs

theorem after_append (m : Machine σ) (cs ds : List HostCall) :
    m.after (cs ++ ds) = (m.after cs).after ds := by
  induction cs generalizing m with
  | nil => rfl
  | cons c cs ih => exact ih (m.perform c).1

/-- Brought about by a host, from a machine that has just been switched on. -/
inductive Reachable : Machine σ → Prop where
  | new (program : Program) (speed : Speed) (source : σ) : Reachable (new program speed source)
  | call {m : Machine σ} (c : HostCall) : Reachable m → Reachable (m.perform c).1

theorem reachable_after {m : Machine σ} (h : Reachable m) (cs : List HostCall) :
    Reachable (m.after cs) := by
  induction cs generalizing m with
  | nil => exact h
  | cons c cs ih => exact ih (.call c h)

/-- A machine with this program, at the usual speed and without random bytes. -/
def holding (program : Program) : Machine RepeatingBytes := new program .default (.ofList [])

/-! ## What every call keeps -/

/-- A property that no call of a host can end. -/
structure Kept (P : Machine σ → Prop) : Prop where
  step : ∀ m, P m → P m.step.1
  reset : ∀ m, P m → P m.reset
  keypad : ∀ m p, P m → P { m with keypad := p }
  memory : ∀ m b, P m → P { m with memory := b }

theorem runSteps_kept {P : Machine σ → Prop} (hP : ∀ m, P m → P m.step.1) (n : Nat)
    (redraw : Bool) {m : Machine σ} (h : P m) : P (m.runSteps n redraw).1 := by
  induction n generalizing m redraw with
  | zero => exact h
  | succ n ih =>
    have hs := hP m h
    rw [runSteps]
    -- a fault ends the run on the machine that the faulting step left
    rcases hm : m.step with ⟨m', now | now⟩ <;> rw [hm] at hs
    · exact hs
    · exact ih _ hs

theorem Kept.perform {P : Machine σ → Prop} (hP : Kept P) (c : HostCall) {m : Machine σ}
    (h : P m) : P (m.perform c).1 := by
  cases hruns : c.runs with
  | true =>
    cases c with
    | step => exact hP.step m h
    | frame fps =>
      show P (m.runFrame fps).1
      unfold runFrame
      split
      · exact h
      · exact runSteps_kept hP.step _ _ h
    | _ => cases hruns
  | false =>
    by_cases hreset : c = .reset
    · rw [hreset]
      exact hP.reset m h
    · rw [m.perform_of_not_runs hruns hreset]
      exact hP.memory _ (c.stores m.memory) (hP.keypad m (c.strikes m.keypad) h)

/-- **What every call keeps, every history keeps.** -/
theorem Kept.after {P : Machine σ → Prop} (hP : Kept P) {m : Machine σ} (h : P m)
    (cs : List HostCall) : P (m.after cs) := by
  induction cs generalizing m with
  | nil => exact h
  | cons c cs ih => exact ih (hP.perform c h)

end Machine

end ChipEight
