import WrCores.Eca.Free

/-!
The slots of the actions in eca_tag_channel.vhd: `free`, `s_data_accept`, `overflow_o` and the reset counter of
`safe_time`. The slot of an action comes from eca_free whenever that is not full; the action is taken only if
the calendar has been wiped, too.
-/

namespace WrCores.Eca

open Clocked Heap

/-- What the elaboration asks of the generics: `c_log_scan_size` is positive (eca_scan.vhd) and
`c_log_calendars` is a natural. -/
structure TagGenerics where
  logSize : Nat
  logMultiplier : Nat
  logLatency : Nat
  scan : 2 ≤ logLatency - logMultiplier
  calendars : logLatency - logMultiplier ≤ logSize + 1

namespace TagGenerics

/-- `c_log_cal_size`. -/
def logCalSize (g : TagGenerics) : Nat := g.logLatency - g.logMultiplier

theorem logSize_pos (g : TagGenerics) : 0 < g.logSize := by
  have scan := g.scan
  have calendars := g.calendars
  omega

end TagGenerics

structure SlotsIn (logSize : Nat) where
  valid : Bool
  free : Bool
  index : BitVec logSize
  deriving DecidableEq, Repr

structure Slots (g : TagGenerics) where
  free : Free g.logSize
  calReset : BitVec (g.logCalSize + 1)

namespace Slots

variable {g : TagGenerics}

structure AfterReset (s : Slots g) : Prop where
  free : s.free.AfterReset
  calReset : s.calReset = 0

/-- The ports of eca_free. -/
def freeIn (i : SlotsIn g.logSize) : FreeIn g.logSize := ⟨i.valid, i.free, i.index⟩

def calReady (s : Slots g) : Bool := s.calReset.msb

def dataAccept (s : Slots g) (i : SlotsIn g.logSize) : Bool := i.valid && !s.free.full && s.calReady

def overflow (s : Slots g) (i : SlotsIn g.logSize) : Bool := i.valid && (s.free.full || !s.calReady)

/-- `s_free_alloc`, the slot of an action that is accepted. -/
def freeAlloc (s : Slots g) (i : SlotsIn g.logSize) : BitVec g.logSize := s.free.avail (freeIn i)

def step (s : Slots g) (i : SlotsIn g.logSize) : Slots g where
  free := s.free.step (freeIn i)
  calReset := if s.calReady then s.calReset else s.calReset + 1

/-- What the outside knows: the slots of the accepted actions that have not been freed, and how many actions
have been accepted and freed. -/
structure Ledger (n : Nat) where
  held : List (BitVec n) := []
  accepted : Nat := 0
  freed : Nat := 0

/-- The slots that stay held when the one at the port is freed. -/
def Ledger.left {n : Nat} (l : Ledger n) (i : SlotsIn n) : List (BitVec n) :=
  if i.free then l.held.erase i.index else l.held

def record (s : Slots g) (l : Ledger g.logSize) (i : SlotsIn g.logSize) : Ledger g.logSize where
  held := if s.dataAccept i then s.freeAlloc i :: l.left i else l.left i
  accepted := l.accepted + (s.dataAccept i).toNat
  freed := l.freed + i.free.toNat

def stepBoth (b : Slots g × Ledger g.logSize) (i : SlotsIn g.logSize) : Slots g × Ledger g.logSize :=
  (b.1.step i, b.1.record b.2 i)

/-- `free_i` names a slot that is held. Where the calendar is longer than the table of the slots, no action
comes while the table has been wiped and the calendar has not. -/
def Fair (b : Slots g × Ledger g.logSize) (i : SlotsIn g.logSize) : Prop :=
  (i.free = true → i.index ∈ b.2.held) ∧
    (g.logSize < g.logCalSize → i.valid = true → b.1.free.ready = true → b.1.calReady = true)

instance (b : Slots g × Ledger g.logSize) (i : SlotsIn g.logSize) : Decidable (Fair b i) :=
  inferInstanceAs (Decidable (_ ∧ _))

theorem overflow_eq (s : Slots g) (i : SlotsIn g.logSize) : s.overflow i = (i.valid && !s.dataAccept i) := by
  rw [overflow, dataAccept]
  cases i.valid <;> cases s.free.full <;> cases s.calReady <;> rfl

/-- What holds `t` cycles after the reset. -/
structure Kept (t : Nat) (b : Slots g × Ledger g.logSize) : Prop where
  cal : b.1.calReset.toNat = min t (2 ^ g.logCalSize)
  ready : b.1.free.ready = true → 2 ^ g.logSize < t
  slots : b.1.free.Wiping ∧ b.1.free.reset.toNat = t ∧ b.2 = {} ∨
    2 ^ g.logSize ≤ t ∧ b.1.free.Shared b.2.held ∧ b.2.accepted = b.2.freed + b.2.held.length

theorem kept_reset {s : Slots g} (start : s.AfterReset) : Kept 0 (s, {}) := by
  refine ⟨?_, ?_, .inl ⟨Free.wiping_reset start.free, ?_, rfl⟩⟩
  · rw [start.calReset, Nat.zero_min]
    rfl
  · intro ready
    rw [start.free.ready] at ready
    exact absurd ready Bool.false_ne_true
  · rw [start.free.reset]
    rfl

theorem calReady_iff {t : Nat} {b : Slots g × Ledger g.logSize} (kept : Kept t b) :
    b.1.calReady = true ↔ 2 ^ g.logCalSize ≤ t := by
  have count := kept.cal
  rw [calReady, Free.msb_iff _ (by omega)]
  omega

theorem cal_step {t : Nat} {b : Slots g × Ledger g.logSize} (kept : Kept t b) (i : SlotsIn g.logSize) :
    (b.1.step i).calReset.toNat = min (t + 1) (2 ^ g.logCalSize) := by
  have count := kept.cal
  have iff := calReady_iff kept
  simp only [step]
  split
  next high =>
    have late := iff.mp high
    omega
  next low =>
    have early : ¬2 ^ g.logCalSize ≤ t := fun late => low (iff.mpr late)
    have small : t + 1 < 2 ^ (g.logCalSize + 1) := by
      rw [Nat.pow_succ]
      omega
    rw [BitVec.toNat_add, Free.one_toNat, count, Nat.min_eq_left (by omega), Nat.mod_eq_of_lt small]
    omega

/-- Where a shorter calendar or the inputs see to it, a slot leaves the stack with an accepted action only. -/
theorem allocates_eq {t : Nat} {b : Slots g × Ledger g.logSize} (kept : Kept t b) {i : SlotsIn g.logSize}
    (fair : Fair b i) : b.1.free.allocates (freeIn i) = b.1.dataAccept i := by
  have together : i.valid = true → b.1.free.full = false → b.1.calReady = true := by
    intro offered room
    rw [Free.full, Bool.or_eq_false_iff, Bool.not_eq_false'] at room
    by_cases longer : g.logSize < g.logCalSize
    · exact fair.2 longer offered room.2
    · have late := kept.ready room.2
      have order : 2 ^ g.logCalSize ≤ 2 ^ g.logSize := Nat.pow_le_pow_right (by omega) (by omega)
      exact (calReady_iff kept).mpr (by omega)
  simp only [Free.allocates, freeIn, dataAccept]
  cases offered : i.valid with
  | false => rfl
  | true =>
      cases room : b.1.free.full with
      | false => simp [together offered room]
      | true => rfl

theorem length_left {n : Nat} {l : Ledger n} {i : SlotsIn n} (owned : i.free = true → i.index ∈ l.held) :
    (l.left i).length + i.free.toNat = l.held.length := by
  rw [Ledger.left]
  cases back : i.free with
  | false => rfl
  | true =>
      have member := owned back
      have filled := List.length_pos_of_mem member
      rw [if_pos rfl, List.length_erase_of_mem member, Bool.toNat_true]
      omega

theorem Kept.step {t : Nat} {b : Slots g × Ledger g.logSize} (kept : Kept t b) {i : SlotsIn g.logSize}
    (fair : Fair b i) : Kept (t + 1) (stepBoth b i) := by
  have taken := allocates_eq kept fair
  rcases kept.slots with ⟨wiping, count, empty⟩ | ⟨late, shared, sum⟩
  · have none : i.free = false := by
      by_contra some
      have member := fair.1 (by simpa using some)
      rw [empty] at member
      exact absurd member List.not_mem_nil
    have refused : b.1.dataAccept i = false := by
      rw [dataAccept, Free.full, wiping.ready]
      simp
    have ledger : b.1.record b.2 i = {} := by
      simp [record, Ledger.left, refused, none, empty]
    obtain ⟨next, after⟩ := wiping.step g.logSize_pos (freeIn i)
    refine ⟨cal_step kept i, ?_, ?_⟩
    · intro ready
      simp only [stepBoth, Slots.step, Free.step, wiping.notWiped] at ready
      exact absurd ready Bool.false_ne_true
    · rcases after with more | finished
      · exact .inl ⟨more, by rw [← count]; exact next, ledger⟩
      · refine .inr ⟨?_, ?_, ?_⟩
        · have size := finished.reset
          omega
        · change (b.1.free.step (freeIn i)).Shared (b.1.record b.2 i).held
          rw [ledger]
          exact finished
        · simp [stepBoth, ledger]
  · obtain ⟨next, -⟩ := shared.step g.logSize_pos (i := freeIn i) fair.1
    refine ⟨cal_step kept i, fun _ => by omega, .inr ⟨by omega, ?_, ?_⟩⟩
    · rw [Free.heldNext, taken] at next
      exact next
    · have remaining := length_left fair.1
      simp only [stepBoth, record]
      cases b.1.dataAccept i with
      | false =>
          rw [if_neg Bool.false_ne_true, Bool.toNat_false]
          omega
      | true =>
          rw [if_pos rfl, Bool.toNat_true, List.length_cons]
          omega

theorem kept_run {t : Nat} {b : Slots g × Ledger g.logSize} (kept : Kept t b) {inputs : List (SlotsIn g.logSize)}
    (fair : Along stepBoth Fair b inputs) : Kept (t + inputs.length) (run stepBoth b inputs) := by
  induction inputs generalizing t b with
  | nil => exact kept
  | cons i rest ih =>
      rw [along_cons] at fair
      rw [run_cons, List.length_cons, ← Nat.add_assoc, Nat.add_right_comm]
      exact ih (kept.step fair.1) fair.2

/-- From the reset on, in any run: while the table is wiped `used_o` counts down from the number of all slots
and actions are refused. From then on it is the number of slots that are held, the stack has the other ones,
an accepted action gets one of those or the one that is freed in its cycle, and a refused one changes nothing. -/
theorem slots_conserved (start : Slots g) (reset : start.AfterReset) (inputs : List (SlotsIn g.logSize))
    (fair : Along stepBoth Fair (start, {}) inputs) :
    let b := run stepBoth (start, {}) inputs
    (inputs.length < 2 ^ g.logSize →
      b.1.free.used.toNat = 2 ^ g.logSize - inputs.length ∧ b.2 = {} ∧ ∀ i, b.1.overflow i = i.valid) ∧
    (2 ^ g.logSize ≤ inputs.length →
      b.1.free.used.toNat + b.2.freed = b.2.accepted ∧ b.2.held.Nodup ∧
        b.1.free.used.toNat = b.2.held.length ∧ ∀ slot, slot ∈ b.1.free.slots ↔ slot ∉ b.2.held) ∧
    ∀ i, Fair b i →
      (i.valid = true → b.1.overflow i = false → b.1.freeAlloc i ∉ b.2.left i) ∧
      (b.1.overflow i = true → 2 ^ g.logSize ≤ inputs.length →
        ∀ slot, slot ∈ (b.1.step i).free.slots ↔ slot ∉ b.2.left i) := by
  intro b
  have kept : Kept (0 + inputs.length) b := kept_run (kept_reset reset) fair
  rw [Nat.zero_add] at kept
  refine ⟨?_, ?_, ?_⟩
  · intro early
    rcases kept.slots with ⟨wiping, count, empty⟩ | ⟨late, -, -⟩
    · refine ⟨by rw [wiping.used, count], empty, fun i => ?_⟩
      rw [overflow, Free.full, wiping.ready]
      simp
    · omega
  · intro late
    rcases kept.slots with ⟨wiping, count, -⟩ | ⟨-, shared, sum⟩
    · have early := wiping.early
      omega
    · have used := shared.used
      exact ⟨by omega, (List.nodup_append.mp shared.once).2.1, used, shared.mem_slots⟩
  · intro i allowed
    have taken := allocates_eq kept allowed
    rcases kept.slots with ⟨wiping, count, -⟩ | ⟨-, shared, -⟩
    · have early := wiping.early
      refine ⟨?_, fun _ late => by omega⟩
      intro offered accepted
      rw [overflow, Free.full, wiping.ready, offered] at accepted
      simp at accepted
    · obtain ⟨next, fresh⟩ := shared.step g.logSize_pos (i := freeIn i) allowed.1
      rw [taken] at fresh
      rw [Free.heldNext, taken] at next
      refine ⟨?_, ?_⟩
      · intro offered accepted
        apply fresh
        rw [overflow_eq, offered] at accepted
        simpa using accepted
      · intro refused _ slot
        have dropped : b.1.dataAccept i = false := by
          rw [overflow_eq, Bool.and_eq_true, Bool.not_eq_true'] at refused
          exact refused.2
        rw [dropped] at next
        exact next.mem_slots slot

/-- Four slots and a calendar of four entries. -/
def four : TagGenerics := ⟨2, 0, 2, by decide, by decide⟩

/-- Two slots and a calendar of four entries, which is longer. -/
def two : TagGenerics := ⟨1, 0, 2, by decide, by decide⟩

/-- The state at the end of the reset, with zeros in the memory. -/
def blank (g : TagGenerics) : Slots g := ⟨⟨⟨fun _ => 0, 0, false, 0⟩, BitVec.twoPow _ g.logSize, 0, false⟩, 0⟩

/-- Five cycles for the wipe, then two actions, the second with the slot of the first. -/
theorem slots_conserved_two :
    let inputs : List (SlotsIn four.logSize) :=
      List.replicate 5 ⟨false, false, 0⟩ ++ [⟨true, false, 0⟩, ⟨true, true, 3⟩]
    Along stepBoth Fair (blank four, {}) inputs ∧
      (run stepBoth (blank four, {}) inputs).1.free.used.toNat + 1 = 2 := by
  intro inputs
  have fair : Along stepBoth Fair (blank four, {}) inputs := by decide
  obtain ⟨-, late, -⟩ := slots_conserved (blank four) ⟨⟨rfl, rfl, rfl⟩, rfl⟩ inputs fair
  have size : 2 ^ four.logSize ≤ inputs.length := by decide
  have sum := (late size).1
  have counts : (run stepBoth (blank four, {}) inputs).2.freed = 1 ∧
      (run stepBoth (blank four, {}) inputs).2.accepted = 2 := by decide
  rw [counts.1, counts.2] at sum
  exact ⟨fair, sum⟩

/-- At the end of the reset `used_o` is not the number of accepted actions. And a calendar that is longer
than the table: an action that is refused while the calendar is wiped takes its slot with it. -/
theorem used_not_accepted :
    ((blank four).AfterReset ∧ (blank four).free.used.toNat = 4) ∧
      let idle : SlotsIn two.logSize := ⟨false, false, 0⟩
      let offered : SlotsIn two.logSize := ⟨true, false, 0⟩
      (run stepBoth (blank two, {}) [idle, idle, idle]).1.free.used.toNat = 0 ∧
        (run stepBoth (blank two, {}) [idle, idle, idle]).1.overflow offered = true ∧
        (run stepBoth (blank two, {}) [idle, idle, idle, offered]).1.free.used.toNat = 1 ∧
        (run stepBoth (blank two, {}) [idle, idle, idle, offered]).2.accepted = 0 := by
  exact ⟨⟨⟨⟨rfl, rfl, rfl⟩, rfl⟩, by decide⟩, by decide⟩

end Slots

end WrCores.Eca
