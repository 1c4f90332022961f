import ChipEight.Proofs.Cuts
import ChipEight.Proofs.Trace
import Mathlib.Data.List.Induction

/-!
# The last write stays

Memory is written byte by byte and block by block, one over the other, and is reset. A call is
refused if it reaches anything that is no address, whatever memory holds by then. So what an address
holds can be told from the calls alone: it is the value of the last call that reached it since the
last reset and was not refused (`lastValue`).

A refused call gives no memory at all, and no memory has another size, so `perform` could not leave
a call half done or memory longer than it was. `edit` could: it carries the same calls out in place,
on a list that takes any length and keeps what was done to it before an error. The two agree
(`edit_eq`).
-/

namespace ChipEight

/-- What changes a memory. -/
inductive MemoryCall where
  | write (addr value : Int)
  | load (offset : Int) (data : List UInt8)
  | reset
  deriving DecidableEq, Repr

namespace MemoryCall

/-- Whether all that a call reaches are addresses. -/
def Granted : MemoryCall → Prop
  | .write addr _ => Memory.IsAddress addr
  | .load offset data => 0 ≤ offset ∧ offset + data.length ≤ 4096
  | .reset => True

instance decidableGranted : (c : MemoryCall) → Decidable c.Granted
  | .write addr _ => inferInstanceAs (Decidable (Memory.IsAddress addr))
  | .load _ _ => inferInstanceAs (Decidable (_ ∧ _))
  | .reset => inferInstanceAs (Decidable True)

/-- The value that a call has for an address, granted or not. -/
def value? (addr : Int) : MemoryCall → Option Int
  | .write a value => if a = addr then some value else none
  | .load offset data =>
    if addr < offset then none else (data[(addr - offset).toNat]?).map fun b => b.toNat
  | .reset => none

/-- Carries a call out on a list of bytes in place. An error ends it and undoes nothing. -/
def edit : MemoryCall → ExceptT MemoryError (StateM (List UInt8)) Unit
  | .write addr value => do
    if ¬ Memory.IsAddress addr then throw (.address addr)
    modify fun bytes => assign bytes addr (UInt8.ofInt value)
  | .load offset data => do
    let stop := offset + data.length
    if offset < 0 ∨ 4096 < stop then throw (.block offset stop)
    modify fun bytes => splice bytes offset stop data
  | .reset => modify fun bytes => splice bytes 0 bytes.length (List.replicate 4096 0)

end MemoryCall

/-- New bytes after calls that were carried out in place, those that failed included. -/
def inPlace (cs : List MemoryCall) : List UInt8 :=
  cs.foldl (fun bytes c => (c.edit bytes).2) (List.replicate 4096 0)

theorem inPlace_concat (cs : List MemoryCall) (c : MemoryCall) :
    inPlace (cs ++ [c]) = (c.edit (inPlace cs)).2 := List.foldl_append

/-- The value that an address was given last since the last reset, by a call that was granted. -/
def lastValue (addr : Int) (cs : List MemoryCall) : Option Int :=
  (cs.reverse.takeWhile (· ≠ .reset)).findSome? fun c => if c.Granted then c.value? addr else none

namespace Memory

def perform (m : Memory) : MemoryCall → Except MemoryError Memory
  | .write addr value => m.write addr value
  | .load offset data => m.load offset data
  | .reset => .ok blank

/-- What a call makes of memory, unless it is refused. -/
def settled (m : Memory) (c : MemoryCall) : Memory := (m.perform c).toOption.getD m

/-- The memory after some calls, refused ones included. -/
def after (m : Memory) (cs : List MemoryCall) : Memory := cs.foldl settled m

variable {m : Memory} {c : MemoryCall} {e : MemoryError}

theorem after_concat (m : Memory) (cs : List MemoryCall) (c : MemoryCall) :
    m.after (cs ++ [c]) = (m.after cs).settled c := List.foldl_append

/-! ## Granted and refused -/

/-- What fails in one way, and only under one condition. -/
theorem eq_error_iff_of_cases {ε α : Type} {x : Except ε α} {p : Prop} [Decidable p] {e₀ e : ε}
    (hfails : p → x = .error e₀) (hgives : ¬ p → ∃ a, x = .ok a) :
    x = .error e ↔ p ∧ e = e₀ := by
  by_cases h : p
  · rw [hfails h]
    exact ⟨fun he => ⟨h, (Except.error.inj he).symm⟩, fun hc => congrArg _ hc.2.symm⟩
  · obtain ⟨a, ha⟩ := hgives h
    rw [ha]
    exact iff_of_false nofun fun hc => h hc.1

theorem granted_load {offset : Int} {data : List UInt8} :
    (MemoryCall.load offset data).Granted ↔ ¬ (offset < 0 ∨ 4096 < offset + data.length) := by
  unfold MemoryCall.Granted
  omega

theorem load_eq_error_iff {offset : Int} {data : List UInt8} :
    m.load offset data = .error e ↔
      (offset < 0 ∨ 4096 < offset + data.length) ∧ e = .block offset (offset + data.length) :=
  eq_error_iff_of_cases m.load_of_outside fun h =>
    ⟨_, m.load_of_inside (granted_load.mpr h).1 (granted_load.mpr h).2⟩

theorem write_eq_error_iff {addr value : Int} :
    m.write addr value = .error e ↔ (addr < 0 ∨ 4096 ≤ addr) ∧ e = .address addr := by
  have hends : ¬ IsAddress addr ↔ addr < 0 ∨ 4096 ≤ addr := by
    unfold IsAddress
    omega
  rw [← hends]
  exact eq_error_iff_of_cases (m.write_of_not_isAddress · value) fun h =>
    ⟨_, m.write_of_isAddress (Decidable.not_not.mp h) value⟩

theorem perform_of_not_granted (m : Memory) (h : ¬ c.Granted) : ∃ e, m.perform c = .error e := by
  cases c with
  | write addr value => exact ⟨_, m.write_of_not_isAddress h value⟩
  | load offset data =>
    exact ⟨_, m.load_of_outside (Decidable.not_not.mp (mt granted_load.mpr h))⟩
  | reset => exact absurd trivial h

theorem perform_of_granted (m : Memory) (h : c.Granted) : ∃ m', m.perform c = .ok m' := by
  cases c with
  | write addr value => exact ⟨_, m.write_of_isAddress h value⟩
  | load offset data => exact ⟨_, m.load_of_inside h.1 h.2⟩
  | reset => exact ⟨_, rfl⟩

theorem perform_error_iff : (∃ e, m.perform c = .error e) ↔ ¬ c.Granted := by
  refine ⟨fun ⟨e, he⟩ h => ?_, m.perform_of_not_granted⟩
  obtain ⟨m', hm'⟩ := m.perform_of_granted h
  rw [hm'] at he
  cases he

/-- A refused call changes nothing. -/
theorem settled_of_error (h : m.perform c = .error e) : m.settled c = m := by
  rw [settled, h]
  rfl

theorem settled_of_not_granted (m : Memory) (h : ¬ c.Granted) : m.settled c = m := by
  obtain ⟨e, he⟩ := m.perform_of_not_granted h
  exact settled_of_error he

theorem settled_write (m : Memory) {addr : Int} (h : IsAddress addr) (value : Int) :
    m.settled (.write addr value) = m.put addr.toNat (UInt8.ofInt value) := by
  rw [settled, perform, m.write_of_isAddress h]
  rfl

theorem settled_load (m : Memory) {offset : Int} {data : List UInt8}
    (h : (MemoryCall.load offset data).Granted) :
    m.settled (.load offset data) = m.putAll offset.toNat data := by
  rw [settled, perform, m.load_of_inside h.1 h.2]
  rfl

/-! ## In place -/

theorem toList_blank (m : Memory) : blank.bytes.toList =
    splice m.bytes.toList 0 m.bytes.toList.length (List.replicate 4096 0) := by
  have hall : position m.bytes.toList.length m.bytes.toList.length = m.bytes.toList.length :=
    position_of_nonneg _ (Int.natCast_nonneg _)
  have hzero : position m.bytes.toList.length 0 = 0 := position_of_nonneg _ (Int.le_refl 0)
  rw [splice, hall, hzero, List.take_zero, List.nil_append, List.drop_zero, Nat.sub_zero,
    List.drop_length, List.append_nil]
  exact Vector.toList_replicate

/-- **A call that is carried out in place** fails when it is refused, and leaves the same bytes. -/
theorem edit_eq (m : Memory) (c : MemoryCall) :
    c.edit m.bytes.toList = ((m.perform c).map fun _ => (), (m.settled c).bytes.toList) := by
  cases c with
  | write addr value =>
    rw [perform]
    by_cases h : IsAddress addr
    · rw [m.write_of_isAddress h, m.settled_write h, m.toList_put h, MemoryCall.edit,
        if_neg (not_not_intro h)]
      rfl
    · have hsame := m.settled_of_not_granted (c := .write addr value) h
      rw [m.write_of_not_isAddress h, hsame, MemoryCall.edit, if_pos h]
      rfl
  | load offset data =>
    rw [perform]
    by_cases h : (MemoryCall.load offset data).Granted
    · rw [m.load_of_inside h.1 h.2, m.settled_load h, m.toList_putAll h.1 h.2, MemoryCall.edit,
        if_neg (granted_load.mp h)]
      rfl
    · have hends := Decidable.not_not.mp (mt granted_load.mpr h)
      rw [m.load_of_outside hends, m.settled_of_not_granted h, MemoryCall.edit, if_pos hends]
      rfl
  | reset =>
    show _ = (_, blank.bytes.toList)
    rw [toList_blank m]
    rfl

theorem inPlace_eq (cs : List MemoryCall) : inPlace cs = (blank.after cs).bytes.toList := by
  induction cs using List.reverseRecOn with
  | nil => exact Vector.toList_replicate.symm
  | append_singleton cs c ih =>
    rw [inPlace_concat, ih, edit_eq, after_concat]

/-! ## What an address holds -/

/-- A byte that is kept is the low eight bits of itself. -/
theorem toNat_mod (b : UInt8) : (b.toNat : Int) % 256 = b.toNat := by
  have := b.toNat_lt
  omega

/-- **What a call does to a byte.** It writes its value there, or leaves it. -/
theorem byte_settled (m : Memory) (hc : c ≠ .reset) {k : Nat} (hk : k < 4096) :
    ((m.settled c).byte k).toNat =
      ((if c.Granted then c.value? k else none).getD (m.byte k).toNat) % 256 := by
  by_cases h : c.Granted
  · rw [if_pos h]
    cases c with
    | write addr value =>
      have haddr : IsAddress addr := h
      unfold IsAddress at haddr
      rw [m.settled_write h, byte_put m (by omega), MemoryCall.value?]
      by_cases hk' : addr = k
      · rw [if_pos (by omega), if_pos hk', toNat_ofInt]
        rfl
      · rw [if_neg (by omega), if_neg hk']
        exact (toNat_mod _).symm
    | load offset data =>
      obtain ⟨hlow, hhigh⟩ := h
      have hindex : ((k : Int) - offset).toNat = k - offset.toNat := by omega
      rw [m.settled_load ⟨hlow, hhigh⟩, byte_putAll m (by omega), MemoryCall.value?, hindex]
      by_cases hk' : (k : Int) < offset
      · rw [if_pos (by omega), if_pos hk']
        exact (toNat_mod _).symm
      · rw [if_neg (by omega), if_neg hk']
        cases data[k - offset.toNat]? <;> exact (toNat_mod _).symm
    | reset => exact absurd rfl hc
  · rw [m.settled_of_not_granted h, if_neg h]
    exact (toNat_mod _).symm

theorem byte_after (cs : List MemoryCall) {k : Nat} (hk : k < 4096) :
    (((blank.after cs).byte k).toNat : Int) = (lastValue k cs).getD 0 % 256 := by
  induction cs using List.reverseRecOn with
  | nil =>
    show ((blank.byte k).toNat : Int) = 0
    rw [byte_blank]
    rfl
  | append_singleton cs c ih =>
    rw [after_concat, lastValue, findSome?_since_concat]
    by_cases hc : c = .reset
    · subst hc
      show ((blank.byte k).toNat : Int) = 0
      rw [byte_blank]
      rfl
    · rw [byte_settled _ hc hk, if_pos (decide_eq_true hc)]
      cases (if c.Granted then c.value? k else none) with
      | none => rw [Option.none_or, Option.getD_none, toNat_mod, ih, lastValue]
      | some value => rfl

/--
**The last write stays.** After any calls on new memory, the byte at an address is the low eight
bits of the value that it was given last since the last reset, by a call that was not refused, or
zero if there is no such call. A block is refused exactly if it begins below zero or ends above
4096, a byte exactly if its address is below zero or above 4095. A refused call leaves memory as it
is, and when the calls are carried out in place, on a list that could grow and shrink, it leaves
that list as it is. The list has the bytes of memory throughout, 4096 of them.
-/
theorem last_write_stays (cs : List MemoryCall) :
    (∀ addr, IsAddress addr → ∃ b, (blank.after cs).read addr = .ok b ∧
      (b.toNat : Int) = (lastValue addr cs).getD 0 % 256) ∧
    (∀ c, (∃ e, (blank.after cs).perform c = .error e) ↔ ¬ c.Granted) ∧
    (∀ offset data e, (blank.after cs).load offset data = .error e ↔
      (offset < 0 ∨ 4096 < offset + data.length) ∧ e = .block offset (offset + data.length)) ∧
    (∀ addr value e, (blank.after cs).write addr value = .error e ↔
      (addr < 0 ∨ 4096 ≤ addr) ∧ e = .address addr) ∧
    (∀ c e, (blank.after cs).perform c = .error e → blank.after (cs ++ [c]) = blank.after cs ∧
      c.edit (inPlace cs) = (.error e, inPlace cs)) ∧
    inPlace cs = (blank.after cs).bytes.toList ∧ (inPlace cs).length = 4096 := by
  refine ⟨fun addr haddr => ?_, fun c => perform_error_iff, fun _ _ _ => load_eq_error_iff,
    fun _ _ _ => write_eq_error_iff, fun c e he => ?_, inPlace_eq cs, ?_⟩
  · refine ⟨_, read_of_isAddress _ haddr, ?_⟩
    obtain ⟨k, rfl⟩ := Int.eq_ofNat_of_zero_le haddr.1
    exact byte_after cs (isAddress_natCast.mp haddr)
  · rw [after_concat, inPlace_eq, edit_eq, settled_of_error he, he]
    exact ⟨rfl, rfl⟩
  · rw [inPlace_eq]
    exact Vector.length_toList

/-- Blocks over each other and over single bytes, one of them past the end and one from below zero
on, which are refused, and a reset that takes back what was written before. -/
theorem last_write_stays_overlapping :
    let cs : List MemoryCall := [.write 0 9, .reset, .load 0xFFD [1, 2, 3], .load 0xFFE [4, 5, 6],
      .write 0xFFF (-1), .load 0xFFC [7, 8], .load (-1) [9]]
    let m := blank.after cs
    m.read 0 = .ok 0 ∧ m.read 0xFFC = .ok 7 ∧ m.read 0xFFD = .ok 8 ∧ m.read 0xFFE = .ok 2 ∧
      m.read 0xFFF = .ok 0xFF ∧ m.load (-1) [9] = .error (.block (-1) 0) ∧
      blank.after (cs ++ [.load (-1) [9]]) = m := by
  intro cs m
  obtain ⟨hbytes, -, hload, -, hrefused, -⟩ := last_write_stays cs
  have hholds : ∀ addr b, IsAddress addr → (b.toNat : Int) = (lastValue addr cs).getD 0 % 256 →
      m.read addr = .ok b := by
    intro addr b haddr hb
    obtain ⟨b', hread, hb'⟩ := hbytes addr haddr
    rw [hread, UInt8.toNat_inj.mp (Int.ofNat.inj (hb'.trans hb.symm))]
  have hbelow : m.load (-1) [9] = .error (.block (-1) 0) := (hload _ _ _).mpr (by decide)
  exact ⟨hholds 0 0 (by decide) (by decide), hholds 0xFFC 7 (by decide) (by decide),
    hholds 0xFFD 8 (by decide) (by decide), hholds 0xFFE 2 (by decide) (by decide),
    hholds 0xFFF 0xFF (by decide) (by decide), hbelow, (hrefused (.load (-1) [9]) _ hbelow).1⟩

end Memory

end ChipEight
