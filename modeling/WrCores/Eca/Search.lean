import Mathlib.Data.Nat.Find
import Mathlib.Tactic
import WrCores.Eca.Walker

/-!
eca_search.vhd: four searches go round in a pipeline of four stages. Each round decides one bit of the index of the last
row of the table that is not after the event, from the highest bit on; then the row is offered to the walker until it
takes it. The table does not change while it is searched; its ports on the other clock and the copy for reading it
back are left out.
-/

namespace WrCores.Eca.Search

open Clocked

-- `g_log_table_size`.
variable {g : Nat}

structure Row (g : Nat) where
  valid : Bool
  first : BitVec g
  event : BitVec 64
  deriving DecidableEq, Repr

/-- The page is the top bit of the address. -/
abbrev Table (g : Nat) := Bool → BitVec (g + 1) → Row g

/-- An event with its page. -/
structure Offer where
  page : Bool
  event : Walker.Event
  deriving DecidableEq, Repr

structure In where
  eStb : Bool
  e : Offer
  wStall : Bool
  deriving DecidableEq, Repr

/-- `t_state`. -/
inductive Phase where
  | search
  | output
  | input
  deriving DecidableEq, Repr

/-- The registers that all four stages have. -/
structure Slot (g : Nat) where
  page : Bool
  event : Walker.Event
  known : BitVec (g + 1)
  tries : BitVec (g + 1)
  state : Phase
  deriving DecidableEq, Repr

structure State (g : Nat) where
  -- the data register of the memory
  s0 : Row g
  r0 : Slot g
  r1 : Slot g
  r1First : BitVec g
  r1TestN : BitVec 64
  r1Stb : Bool
  r1Done : Bool
  compare : Adder
  r2 : Slot g
  r2Stall : Bool
  r3 : Slot g
  r3Shift : Bool
  r3Less : Bool

/-- The reset lasts until it has gone through all stages, with no event. -/
structure AfterReset (s : State g) : Prop where
  r0 : s.r0.state = .input ∧ s.r0.tries = 0
  r1 : s.r1.state = .input ∧ s.r1.tries = 0
  r1Stb : s.r1Stb = false
  r1Done : s.r1Done = false
  r2 : s.r2.state = .input ∧ s.r2.tries = 0
  r2Stall : s.r2Stall = false
  r3 : s.r3.state = .input ∧ s.r3.tries = 0
  r3Shift : s.r3Shift = false

namespace State

/-- The slot becomes free in the second stage. -/
def leaves (s : State g) (i : In) : Bool := s.r1Done || (s.r1Stb && !i.wStall)

def s1State (s : State g) (i : In) : Phase := if s.leaves i then .input else s.r1.state

def s2Less (s : State g) : Bool := s.compare.c1

def s3Known (s : State g) : BitVec (g + 1) := s.r3.known ||| (if s.r3Less then s.r3.tries else 0)

def s3Try (s : State g) : BitVec (g + 1) := BitVec.cons s.r3Shift (s.r3.tries.extractLsb' 1 g)

def s3Probe (s : State g) : BitVec (g + 1) := s.s3Known ||| s.s3Try

def s3State (s : State g) : Phase := if s.r3.tries.getLsbD 0 then .output else s.r3.state

def accepts (s : State g) (i : In) : Bool := i.eStb && !s.r2Stall

def step (table : Table g) (s : State g) (i : In) : State g where
  s0 := table s.r3.page s.s3Probe
  r0 := { s.r3 with known := s.s3Known, tries := s.s3Try, state := s.s3State }
  r1 := s.r0
  r1First := s.s0.first
  r1TestN := ~~~s.s0.event
  r1Stb := decide (s.r0.state = .output) && s.s0.valid
  r1Done := decide (s.r0.state = .output) && !s.s0.valid
  compare := s.compare.main s.r1.event.event s.r1TestN true
  r2 := { s.r1 with state := s.s1State i }
  r2Stall := decide (s.s1State i ≠ .input)
  r3 := if s.accepts i then ⟨i.e.page, i.e.event, 0, s.r2.tries, .search⟩ else s.r2
  r3Shift := s.accepts i
  r3Less := s.s2Less

end State

/-- A request as the walker takes it: the event comes one cycle later. -/
structure Request (g : Nat) where
  page : Bool
  first : BitVec g
  event : Walker.Event
  deriving DecidableEq, Repr

def requests (table : Table g) (s : State g) (i : In) : List (Request g) :=
  if s.r1Stb && !i.wStall then [⟨s.r1.page, s.r1First, (s.step table i).r2.event⟩] else []

def taken (s : State g) (i : In) : List Offer := if s.accepts i then [i.e] else []

/-! ### What is asked for -/

/-- The pages are sorted, and their first row is the one of event 0. -/
structure Sorted (table : Table g) : Prop where
  first : ∀ page, (table page 0).event = 0
  ordered : ∀ page x y, x ≤ y → (table page x).event ≤ (table page y).event

/-- The largest index of a row that is not after the event. -/
def position (table : Table g) (o : Offer) : Nat :=
  Nat.findGreatest (fun x => (table o.page (BitVec.ofNat (g + 1) x)).event ≤ o.event.event) (2 ^ (g + 1) - 1)

def answer (table : Table g) (o : Offer) : Option (Request g) :=
  let row := table o.page (BitVec.ofNat (g + 1) (position table o))
  if row.valid then some ⟨o.page, row.first, o.event⟩ else none

theorem position_lt (table : Table g) (o : Offer) : position table o < 2 ^ (g + 1) := by
  have bound := Nat.findGreatest_le (P := fun x => (table o.page (BitVec.ofNat (g + 1) x)).event ≤ o.event.event)
    (2 ^ (g + 1) - 1)
  have positive := Nat.two_pow_pos (g + 1)
  rw [position]
  omega

theorem le_position {table : Table g} (sorted : Sorted table) (o : Offer) (x : BitVec (g + 1)) :
    (table o.page x).event ≤ o.event.event ↔ x.toNat ≤ position table o := by
  have bound := x.isLt
  constructor
  · intro before
    apply Nat.le_findGreatest (by omega)
    rw [BitVec.ofNat_toNat, BitVec.setWidth_eq]
    exact before
  · intro below
    have zero : (table o.page (BitVec.ofNat (g + 1) 0)).event ≤ o.event.event := by
      rw [show BitVec.ofNat (g + 1) 0 = 0 from rfl, sorted.first]
      exact Nat.zero_le _
    have last := Nat.findGreatest_spec (P := fun x => (table o.page (BitVec.ofNat (g + 1) x)).event ≤ o.event.event)
      (Nat.zero_le (2 ^ (g + 1) - 1)) zero
    refine BitVec.le_trans (sorted.ordered _ _ _ ?_) last
    change x.toNat ≤ (BitVec.ofNat (g + 1) (position table o)).toNat
    rw [BitVec.toNat_ofNat, Nat.mod_eq_of_lt (position_lt table o)]
    exact below

/-! ### The bits found so far -/

/-- A number without its `m` lowest bits. -/
def upper (p m : Nat) : Nat := p / 2 ^ m * 2 ^ m

theorem upper_zero (p : Nat) : upper p 0 = p := by
  rw [upper, Nat.pow_zero, Nat.div_one, Nat.mul_one]

theorem upper_all {p m : Nat} (small : p < 2 ^ m) : upper p m = 0 := by
  rw [upper, Nat.div_eq_of_lt small, Nat.zero_mul]

/-- The next bit is set if the number is not below the upper bits with that one. -/
theorem upper_succ (p m : Nat) :
    upper p m = upper p (m + 1) + if upper p (m + 1) + 2 ^ m ≤ p then 2 ^ m else 0 := by
  have half : p / 2 ^ (m + 1) = p / 2 ^ m / 2 := by rw [Nat.pow_succ, Nat.div_div_eq_div_mul]
  have whole := Nat.div_add_mod p (2 ^ m)
  have rest := Nat.mod_lt p (Nat.two_pow_pos m)
  rw [upper, upper, half, Nat.pow_succ]
  rw [Nat.mul_comm] at whole
  generalize p / 2 ^ m = q at *
  rcases Nat.mod_two_eq_zero_or_one q with even | odd
  · have double : q / 2 * (2 ^ m * 2) = q * 2 ^ m := by
      rw [Nat.mul_comm (2 ^ m) 2, ← Nat.mul_assoc]
      congr 1
      omega
    rw [double, if_neg (by omega), Nat.add_zero]
  · have double : q / 2 * (2 ^ m * 2) + 2 ^ m = q * 2 ^ m := by
      rw [Nat.mul_comm (2 ^ m) 2, ← Nat.mul_assoc]
      nth_rewrite 2 [← Nat.one_mul (2 ^ m)]
      rw [← Nat.add_mul]
      congr 1
      omega
    rw [if_pos (by omega), double]

theorem or_bit {x y : BitVec (g + 1)} {p m : Nat} (high : x.toNat = upper p (m + 1)) (bit : y.toNat = 2 ^ m) :
    (x ||| y).toNat = upper p (m + 1) + 2 ^ m := by
  have below : 2 ^ m < 2 ^ (m + 1) := Nat.pow_lt_pow_right (by decide) (by omega)
  rw [BitVec.toNat_or, high, bit, upper, ← Nat.shiftLeft_eq, Nat.shiftLeft_add_eq_or_of_lt below]

/-! ### A search in its slot -/

/-- An event in the pipeline, and the number of bits that are still to be found. -/
structure Job where
  offer : Offer
  todo : Nat

/-- A slot that is free, that searches, or that has found its row. -/
def Holds (table : Table g) (slot : Slot g) : Option Job → Prop
  | none => slot.state = .input ∧ slot.tries = 0
  | some job => slot.page = job.offer.page ∧ slot.event = job.offer.event ∧
      match job.todo with
      | 0 => slot.state = .output ∧ slot.tries = 0 ∧ slot.known.toNat = position table job.offer
      | m + 1 => slot.state = .search ∧ m ≤ g ∧ slot.tries.toNat = 2 ^ m ∧
          slot.known.toNat = upper (position table job.offer) (m + 1)

/-- The row that a slot has asked for. -/
def probed (table : Table g) (slot : Slot g) : Row g := table slot.page (slot.known ||| slot.tries)

/-- A slot before its first round. -/
def Fresh (slot : Slot g) : Option Job → Prop
  | none => False
  | some job => slot = ⟨job.offer.page, job.offer.event, 0, 0, .search⟩ ∧ job.todo = g + 2

/-- The jobs of the four stages. -/
structure Book where
  p0 : Option Job
  p1 : Option Job
  p2 : Option Job
  p3 : Option Job

def Job.next (job : Job) : Job := { job with todo := job.todo - 1 }

def Book.next (b : Book) (s : State g) (i : In) : Book where
  p0 := b.p3.map Job.next
  p1 := b.p0
  p2 := if s.leaves i then none else b.p1
  p3 := if s.accepts i then some ⟨i.e, g + 2⟩ else b.p2

structure Kept (table : Table g) (s : State g) (b : Book) : Prop where
  p0 : Holds table s.r0 b.p0
  s0 : s.r0.state ≠ .input → s.s0 = probed table s.r0
  p1 : Holds table s.r1 b.p1
  first : s.r1.state ≠ .input → s.r1First = (probed table s.r1).first
  test : s.r1.state ≠ .input → s.r1TestN = ~~~(probed table s.r1).event
  stb : s.r1Stb = (decide (s.r1.state = .output) && (probed table s.r1).valid)
  done : s.r1Done = (decide (s.r1.state = .output) && !(probed table s.r1).valid)
  p2 : Holds table s.r2 b.p2
  stall : s.r2Stall = decide (s.r2.state ≠ .input)
  compared : s.r2.state = .search → s.s2Less = decide ((probed table s.r2).event ≤ s.r2.event.event)
  p3 : if s.r3Shift then Fresh s.r3 b.p3 else Holds table s.r3 b.p3
  less : s.r3Shift = false → s.r3.state = .search →
    s.r3Less = decide ((probed table s.r3).event ≤ s.r3.event.event)

theorem cons_toNat {c : Bool} {x : BitVec (g + 1)} :
    (BitVec.cons c (x.extractLsb' 1 g)).toNat = c.toNat * 2 ^ g + x.toNat / 2 := by
  have bound := x.isLt
  have half : x.toNat / 2 < 2 ^ g := by
    rw [Nat.pow_succ] at bound
    omega
  rw [BitVec.toNat_cons, BitVec.extractLsb'_toNat, Nat.shiftRight_eq_div_pow, Nat.pow_one, Nat.mod_eq_of_lt half,
    Nat.shiftLeft_eq, ← Nat.shiftLeft_eq c.toNat, Nat.shiftLeft_add_eq_or_of_lt half]

/-- The first round of a search. -/
theorem fresh_round {table : Table g} {s : State g} {o : Option Job} (shift : s.r3Shift = true)
    (fresh : Fresh s.r3 o) :
    Holds table { s.r3 with known := s.s3Known, tries := s.s3Try, state := s.s3State } (o.map Job.next) := by
  cases o with
  | none => exact fresh.elim
  | some job =>
      obtain ⟨slot, todo⟩ := fresh
      have known : s.s3Known = 0 := by
        rw [State.s3Known, slot]
        simp
      have bit : s.s3Try.toNat = 2 ^ g := by
        rw [State.s3Try, cons_toNat, shift, slot]
        simp
      have state : s.s3State = .search := by
        rw [State.s3State, slot]
        simp
      have small := position_lt table job.offer
      refine ⟨by rw [slot]; rfl, by rw [slot]; rfl, ?_⟩
      simp only [Job.next, todo]
      refine ⟨state, le_rfl, bit, ?_⟩
      rw [known, upper_all small]
      rfl

/-- A later round finds one more bit. -/
theorem later_round {table : Table g} (sorted : Sorted table) {s : State g} {o : Option Job}
    (shift : s.r3Shift = false)
    (held : Holds table s.r3 o)
    (less : s.r3.state = .search → s.r3Less = decide ((probed table s.r3).event ≤ s.r3.event.event)) :
    Holds table { s.r3 with known := s.s3Known, tries := s.s3Try, state := s.s3State } (o.map Job.next) := by
  have still (zero : s.r3.tries = 0) : s.s3Known = s.r3.known ∧ s.s3Try = 0 ∧ s.s3State = s.r3.state := by
    refine ⟨?_, ?_, ?_⟩
    · rw [State.s3Known, zero, ite_self]
      simp
    · apply BitVec.eq_of_toNat_eq
      rw [State.s3Try, cons_toNat, shift, zero]
      simp
    · rw [State.s3State, zero]
      simp
  match o, held with
  | none, held =>
      obtain ⟨-, tries, state⟩ := still held.2
      exact ⟨state.trans held.1, tries⟩
  | some ⟨offer, 0⟩, held =>
      obtain ⟨page, event, state, tries, found⟩ := held
      obtain ⟨known, rest, same⟩ := still tries
      exact ⟨page, event, same.trans state, rest, (congrArg BitVec.toNat known).trans found⟩
  | some ⟨offer, m + 1⟩, held =>
      obtain ⟨page, event, state, small, bit, high⟩ := held
      have probe := or_bit high bit
      have order : (probed table s.r3).event ≤ s.r3.event.event ↔
          upper (position table offer) (m + 1) + 2 ^ m ≤ position table offer := by
        rw [probed, page, event, le_position sorted offer, probe]
      have known : s.s3Known.toNat = upper (position table offer) m := by
        rw [State.s3Known, less state, upper_succ]
        by_cases after : upper (position table offer) (m + 1) + 2 ^ m ≤ position table offer
        · rw [decide_eq_true (order.mpr after), if_pos rfl, probe, if_pos after]
        · rw [decide_eq_false (mt order.mp after), if_neg Bool.false_ne_true, if_neg after]
          simp only [BitVec.ofNat_eq_ofNat, BitVec.or_zero, high, Nat.add_zero]
      have tries : s.s3Try.toNat = 2 ^ m / 2 := by
        rw [State.s3Try, cons_toNat, shift, bit, Bool.toNat_false, Nat.zero_mul, Nat.zero_add]
      have lowest : s.r3.tries.getLsbD 0 = decide (m = 0) := by
        rw [← BitVec.testBit_toNat, bit, Nat.testBit_two_pow]
      refine ⟨page, event, ?_⟩
      cases m with
      | zero =>
          refine ⟨by rw [State.s3State, lowest]; rfl, ?_, ?_⟩
          · apply BitVec.eq_of_toNat_eq
            rw [tries]
            simp
          · rw [known, upper_zero]
            rfl
      | succ m =>
          refine ⟨?_, by omega, ?_, known⟩
          · rw [State.s3State, lowest, decide_eq_false (by omega), if_neg Bool.false_ne_true]
            exact state
          · rw [tries, Nat.pow_succ, Nat.mul_div_cancel _ (by decide)]

theorem Holds.input_iff {table : Table g} {slot : Slot g} {o : Option Job} (held : Holds table slot o) :
    slot.state = .input ↔ o = none := by
  match o, held with
  | none, held => exact ⟨fun _ => rfl, fun _ => held.1⟩
  | some ⟨offer, 0⟩, held =>
      obtain ⟨-, -, state, -⟩ := held
      simp [state]
  | some ⟨offer, m + 1⟩, held =>
      obtain ⟨-, -, state, -⟩ := held
      simp [state]

/-- Only what has been found leaves. -/
theorem leaves_spec {table : Table g} {s : State g} {b : Book} (kept : Kept table s b) {i : In}
    (leaves : s.leaves i = true) :
    ∃ offer, b.p1 = some ⟨offer, 0⟩ := by
  have output : s.r1.state = .output := by
    rw [State.leaves, kept.stb, kept.done] at leaves
    by_contra other
    simp [other] at leaves
  have held := kept.p1
  match shown : b.p1 with
  | none =>
      rw [shown] at held
      exact absurd (held.1.symm.trans output) (by decide)
  | some ⟨offer, 0⟩ => exact ⟨offer, rfl⟩
  | some ⟨offer, m + 1⟩ =>
      rw [shown] at held
      exact absurd (held.2.2.1.symm.trans output) (by decide)

theorem compare_spec (adder : Adder) (a b : BitVec 64) : (adder.main a (~~~b) true).c1 = decide (b ≤ a) := by
  have first := a.isLt
  have second := b.isLt
  rw [Adder.main_c1, BitVec.toNat_not, Bool.toNat_true, decide_eq_decide, BitVec.le_def]
  omega

theorem kept_step {table : Table g} (sorted : Sorted table) {s : State g} {b : Book} (kept : Kept table s b)
    (i : In) :
    Kept table (s.step table i) (b.next s i) where
  p0 := by
    have held := kept.p3
    split at held
    next shift => exact fresh_round shift held
    next shift =>
      have clear : s.r3Shift = false := Bool.eq_false_iff.mpr shift
      exact later_round sorted clear held (kept.less clear)
  s0 _ := rfl
  p1 := kept.p0
  first busy := congrArg Row.first (kept.s0 busy)
  test busy := congrArg (fun row => ~~~row.event) (kept.s0 busy)
  stb := by
    change (decide (s.r0.state = .output) && s.s0.valid) = _
    by_cases busy : s.r0.state = .output
    · rw [kept.s0 (by rw [busy]; decide)]
      rfl
    · rw [decide_eq_false busy, Bool.false_and]
      exact (congrArg (· && _) (decide_eq_false busy)).symm
  done := by
    change (decide (s.r0.state = .output) && !s.s0.valid) = _
    by_cases busy : s.r0.state = .output
    · rw [kept.s0 (by rw [busy]; decide)]
      rfl
    · rw [decide_eq_false busy, Bool.false_and]
      exact (congrArg (· && _) (decide_eq_false busy)).symm
  p2 := by
    change Holds table { s.r1 with state := s.s1State i } (if s.leaves i then none else b.p1)
    rw [State.s1State]
    cases leaves : s.leaves i with
    | false => exact kept.p1
    | true =>
        obtain ⟨offer, found⟩ := leaves_spec kept leaves
        have held := kept.p1
        rw [found] at held
        exact ⟨rfl, held.2.2.2.1⟩
  stall := rfl
  compared searching := by
    have state : s.r1.state = .search := by
      change s.s1State i = .search at searching
      rw [State.s1State] at searching
      split at searching
      next => exact absurd searching (by decide)
      next => exact searching
    change (s.compare.main s.r1.event.event s.r1TestN true).c1 = _
    rw [kept.test (by rw [state]; decide), compare_spec]
    rfl
  p3 := by
    change if s.accepts i then Fresh (if s.accepts i then _ else s.r2) (if s.accepts i then _ else b.p2)
      else Holds table (if s.accepts i then _ else s.r2) (if s.accepts i then _ else b.p2)
    cases now : s.accepts i with
    | false => exact kept.p2
    | true =>
        have free : s.r2.state = .input := by
          rw [State.accepts, kept.stall, Bool.and_eq_true, Bool.not_eq_true', decide_eq_false_iff_not, not_not] at now
          exact now.2
        have held := kept.p2
        rw [kept.p2.input_iff.mp free] at held
        exact ⟨congrArg (Slot.mk i.e.page i.e.event 0 · .search) held.2, rfl⟩
  less idle searching := by
    change s.accepts i = false at idle
    change (if s.accepts i then _ else s.r2).state = .search at searching
    change s.s2Less = decide ((probed table (if s.accepts i then _ else s.r2)).event ≤
      (if s.accepts i then _ else s.r2).event.event)
    rw [idle, if_neg Bool.false_ne_true] at searching ⊢
    exact kept.compared searching

/-! ### Whole runs -/

/-- The requests that are still to come of a job. -/
def owed (table : Table g) (o : Option Job) : List (Request g) := (o.bind fun job => answer table job.offer).toList

def Book.owed (table : Table g) (b : Book) : List (Request g) :=
  Search.owed table b.p0 ++ Search.owed table b.p1 ++ Search.owed table b.p2 ++ Search.owed table b.p3

def stepBoth (table : Table g) (x : State g × Book) (i : In) : State g × Book := (x.1.step table i, x.2.next x.1 i)

/-- What leaves is taken by the walker, where there is anything to take. -/
theorem requests_eq {table : Table g} {s : State g} {b : Book} (kept : Kept table s b) (i : In) :
    requests table s i = if s.leaves i then Search.owed table b.p1 else [] := by
  cases leaves : s.leaves i with
  | false =>
      rw [State.leaves, Bool.or_eq_false_iff] at leaves
      rw [requests, leaves.2]
      rfl
  | true =>
      obtain ⟨offer, found⟩ := leaves_spec kept leaves
      have held := kept.p1
      rw [found] at held
      obtain ⟨page, event, state, tries, known⟩ := held
      have row : probed table s.r1 = table offer.page (BitVec.ofNat (g + 1) (position table offer)) := by
        have index : s.r1.known ||| s.r1.tries = BitVec.ofNat (g + 1) (position table offer) := by
          apply BitVec.eq_of_toNat_eq
          rw [tries, BitVec.toNat_ofNat, Nat.mod_eq_of_lt (position_lt table offer), ← known]
          simp
        rw [probed, index, page]
      have stb := kept.stb
      have done := kept.done
      rw [state, decide_eq_true rfl, Bool.true_and, row] at stb done
      rw [State.leaves, done, stb] at leaves
      rw [requests, stb, found, if_pos rfl]
      change _ = (answer table offer).toList
      rw [answer]
      cases valid : (table offer.page (BitVec.ofNat (g + 1) (position table offer))).valid with
      | false => rfl
      | true =>
          rw [valid] at leaves
          have ready : (true && !i.wStall) = true := leaves
          rw [if_pos ready, kept.first (by rw [state]; decide), row, page]
          change [(⟨offer.page, _, s.r1.event⟩ : Request g)] = _
          rw [event]
          rfl

theorem balanced {table : Table g} {s : State g} {b : Book} (kept : Kept table s b) (i : In) :
    List.Perm (b.owed table ++ (taken s i).filterMap (answer table))
      (requests table s i ++ (b.next s i).owed table) := by
  have later : Search.owed table (b.p3.map Job.next) = Search.owed table b.p3 := by
    cases b.p3 with
    | none => rfl
    | some job => rfl
  have room : s.accepts i = true → b.p2 = none := by
    intro now
    rw [State.accepts, kept.stall, Bool.and_eq_true, Bool.not_eq_true', decide_eq_false_iff_not, not_not] at now
    exact kept.p2.input_iff.mp now.2
  have offered : s.accepts i = true → [i.e].filterMap (answer table) = Search.owed table (some ⟨i.e, g + 2⟩) := by
    intro _
    change _ = (answer table i.e).toList
    cases shown : answer table i.e with
    | none => simp [shown]
    | some request => simp [shown]
  rw [requests_eq kept, taken, List.perm_iff_count]
  intro request
  simp only [Book.owed, Book.next, later, List.count_append]
  cases leaves : s.leaves i with
  | false =>
      cases now : s.accepts i with
      | false =>
          simp only [Bool.false_eq_true, if_false, List.filterMap_nil, List.count_nil]
          omega
      | true =>
          simp only [Bool.false_eq_true, if_false, if_true, offered now, room now, List.count_nil]
          rw [show Search.owed table (none : Option Job) = [] from rfl, List.count_nil]
          omega
  | true =>
      cases now : s.accepts i with
      | false =>
          simp only [Bool.false_eq_true, if_false, if_true, List.filterMap_nil, List.count_nil]
          rw [show Search.owed table (none : Option Job) = [] from rfl, List.count_nil]
          omega
      | true =>
          simp only [if_true, offered now, room now]
          rw [show Search.owed table (none : Option Job) = [] from rfl, List.count_nil]
          omega

/-- All jobs are done within `d` cycles if the walker does not stall. -/
structure Book.Soon (b : Book) (d : Nat) : Prop where
  p0 : ∀ job, b.p0 = some job → 4 * job.todo + 2 ≤ d
  p1 : ∀ job, b.p1 = some job → 4 * job.todo + 1 ≤ d
  p2 : ∀ job, b.p2 = some job → 4 * max 1 job.todo ≤ d
  p3 : ∀ job, b.p3 = some job → 4 * max 1 job.todo ≤ d + 1

theorem Holds.todo_le {table : Table g} {slot : Slot g} {job : Job} (held : Holds table slot (some job)) :
    job.todo ≤ g + 1 := by
  obtain ⟨offer, todo⟩ := job
  cases todo with
  | zero => exact Nat.zero_le _
  | succ m => exact Nat.succ_le_succ held.2.2.2.1

theorem Kept.soon {table : Table g} {s : State g} {b : Book} (kept : Kept table s b) : b.Soon (4 * (g + 2)) where
  p0 job shown := by
    have bound := (shown ▸ kept.p0 : Holds table s.r0 (some job)).todo_le
    omega
  p1 job shown := by
    have bound := (shown ▸ kept.p1 : Holds table s.r1 (some job)).todo_le
    omega
  p2 job shown := by
    have bound := (shown ▸ kept.p2 : Holds table s.r2 (some job)).todo_le
    omega
  p3 job shown := by
    have held := kept.p3
    rw [shown] at held
    split at held
    next =>
      have bound := held.2
      omega
    next =>
      have bound := held.todo_le
      omega

/-- What has been found does not stay when the walker does not stall. -/
theorem found_leaves {table : Table g} {s : State g} {b : Book} (kept : Kept table s b) {i : In}
    (ready : i.wStall = false)
    {offer : Offer} (found : b.p1 = some ⟨offer, 0⟩) : s.leaves i = true := by
  have held := kept.p1
  rw [found] at held
  rw [State.leaves, kept.stb, kept.done, held.2.2.1, ready]
  cases (probed table s.r1).valid with
  | false => rfl
  | true => rfl

theorem soon_step {table : Table g} {s : State g} {b : Book} (kept : Kept table s b) {d : Nat}
    (soon : b.Soon (d + 1)) {i : In}
    (ready : i.wStall = false) (quiet : i.eStb = false) : (b.next s i).Soon d where
  p0 job shown := by
    obtain ⟨before, here, rfl⟩ := Option.map_eq_some_iff.mp shown
    have bound := soon.p3 before here
    change 4 * (before.todo - 1) + 2 ≤ d
    omega
  p1 job shown := by
    have bound := soon.p0 job shown
    omega
  p2 job shown := by
    change (if s.leaves i then none else b.p1) = some job at shown
    split at shown
    next => exact absurd shown.symm (Option.some_ne_none job)
    next stays =>
      have bound := soon.p1 job shown
      have more : job.todo ≠ 0 := by
        intro done
        obtain ⟨offer, todo⟩ := job
        obtain rfl : todo = 0 := done
        exact stays (found_leaves kept ready shown)
      omega
  p3 job shown := by
    have idle : s.accepts i = false := by rw [State.accepts, quiet, Bool.false_and]
    change (if s.accepts i then _ else b.p2) = some job at shown
    rw [idle, if_neg Bool.false_ne_true] at shown
    exact soon.p2 job shown

theorem soon_run {table : Table g} (sorted : Sorted table) {s : State g} {b : Book} (kept : Kept table s b)
    {rest : List In}
    {d : Nat} (soon : b.Soon d) (quiet : ∀ i ∈ rest, i.wStall = false ∧ i.eStb = false) :
    (run (stepBoth table) (s, b) rest).2.Soon (d - rest.length) := by
  induction rest generalizing s b d with
  | nil => exact soon
  | cons i rest ih =>
      have here := quiet i List.mem_cons_self
      have more : b.Soon (d - 1 + 1) := by
        refine ⟨fun job shown => ?_, fun job shown => ?_, fun job shown => ?_, fun job shown => ?_⟩
        · exact (soon.p0 job shown).trans (by omega)
        · exact (soon.p1 job shown).trans (by omega)
        · exact (soon.p2 job shown).trans (by omega)
        · exact (soon.p3 job shown).trans (by omega)
      have later := ih (kept_step sorted kept i) (soon_step kept more here.1 here.2)
        (fun j member => quiet j (List.mem_cons_of_mem i member))
      rw [List.length_cons, show d - (rest.length + 1) = d - 1 - rest.length by omega]
      exact later

theorem nothing_owed {b : Book} (table : Table g) (soon : b.Soon 0) : b.owed table = [] := by
  have p0 : b.p0 = none := Option.eq_none_iff_forall_ne_some.mpr fun job shown => by have := soon.p0 job shown; omega
  have p1 : b.p1 = none := Option.eq_none_iff_forall_ne_some.mpr fun job shown => by have := soon.p1 job shown; omega
  have p2 : b.p2 = none := Option.eq_none_iff_forall_ne_some.mpr fun job shown => by have := soon.p2 job shown; omega
  have p3 : b.p3 = none := Option.eq_none_iff_forall_ne_some.mpr fun job shown => by have := soon.p3 job shown; omega
  rw [Book.owed, p0, p1, p2, p3]
  rfl

def idle : Book := ⟨none, none, none, none⟩

theorem kept_reset {table : Table g} {s : State g} (reset : AfterReset s) : Kept table s idle where
  p0 := reset.r0
  s0 busy := absurd reset.r0.1 busy
  p1 := reset.r1
  first busy := absurd reset.r1.1 busy
  test busy := absurd reset.r1.1 busy
  stb := by
    rw [reset.r1Stb, reset.r1.1]
    rfl
  done := by
    rw [reset.r1Done, reset.r1.1]
    rfl
  p2 := reset.r2
  stall := by
    rw [reset.r2Stall, reset.r2.1]
    rfl
  compared searching := absurd (reset.r2.1.symm.trans searching) (by decide)
  p3 := by
    rw [reset.r3Shift]
    exact reset.r3
  less _ searching := absurd (reset.r3.1.symm.trans searching) (by decide)

/-- Over a run the requests that were taken and those still owed are the answers to the events. -/
theorem answers_run {table : Table g} (sorted : Sorted table) {s : State g} {b : Book} (kept : Kept table s b)
    (inputs : List In) :
    Kept table (run (stepBoth table) (s, b) inputs).1 (run (stepBoth table) (s, b) inputs).2 ∧
      List.Perm (b.owed table ++ (collect (State.step table) taken s inputs).filterMap (answer table))
        (collect (State.step table) (requests table) s inputs ++
          (run (stepBoth table) (s, b) inputs).2.owed table) := by
  induction inputs generalizing s b with
  | nil => exact ⟨kept, by simp⟩
  | cons i rest ih =>
      obtain ⟨final, later⟩ := ih (kept_step sorted kept i)
      refine ⟨final, ?_⟩
      rw [collect_cons, collect_cons, List.filterMap_append, ← List.append_assoc, List.append_assoc
        (requests table s i)]
      refine ((balanced kept i).append_right _).trans ?_
      rw [List.append_assoc]
      exact later.append_left _

theorem taken_quiet (table : Table g) (s : State g) {rest : List In}
    (quiet : ∀ i ∈ rest, i.wStall = false ∧ i.eStb = false) :
    collect (State.step table) taken s rest = [] := by
  induction rest generalizing s with
  | nil => rfl
  | cons i rest ih =>
      have here : taken s i = [] := by
        rw [taken, State.accepts, (quiet i List.mem_cons_self).2]
        rfl
      rw [collect_cons, here, List.nil_append]
      exact ih _ fun j member => quiet j (List.mem_cons_of_mem i member)

theorem owed_length (table : Table g) (b : Book) : (b.owed table).length ≤ 4 := by
  have one (o : Option Job) : (owed table o).length ≤ 1 := Option.length_toList_le
  have p0 := one b.p0
  have p1 := one b.p1
  have p2 := one b.p2
  have p3 := one b.p3
  simp only [Book.owed, List.length_append]
  omega

/-- The walker gets the answers to the events that were taken, each once and no others; at most four are still to come,
and none when it does not stall for some rounds after the last event. -/
theorem events_answered (table : Table g) (sorted : Sorted table) {s : State g} (reset : AfterReset s)
    (inputs : List In) :
    (∃ later : List (Request g), later.length ≤ 4 ∧
      List.Perm ((collect (State.step table) taken s inputs).filterMap (answer table))
        (collect (State.step table) (requests table) s inputs ++ later)) ∧
    ∀ rest : List In, (∀ i ∈ rest, i.wStall = false ∧ i.eStb = false) → 4 * (g + 2) ≤ rest.length →
      List.Perm ((collect (State.step table) taken s inputs).filterMap (answer table))
        (collect (State.step table) (requests table) s (inputs ++ rest)) := by
  have start : idle.owed table = [] := rfl
  obtain ⟨kept, sum⟩ := answers_run sorted (kept_reset reset) inputs
  rw [start, List.nil_append] at sum
  refine ⟨⟨_, owed_length table _, sum⟩, ?_⟩
  intro rest quiet long
  have whole := (answers_run sorted (kept_reset reset) (inputs ++ rest)).2
  have soon := soon_run sorted kept kept.soon quiet
  rw [show 4 * (g + 2) - rest.length = 0 by omega] at soon
  rw [start, List.nil_append, collect_append _ taken, taken_quiet table _ quiet, List.append_nil, run_append,
    nothing_owed table soon, List.append_nil] at whole
  exact whole

/-- Rows at the events 0, 10, 20 and 30, the last of them not valid. -/
def fourRows : Table 1 := fun _ x => ⟨decide (x ≠ 3), BitVec.ofNat 1 x.toNat, BitVec.ofNat 64 (10 * x.toNat)⟩

def blank (g : Nat) : State g :=
  let slot : Slot g := ⟨false, ⟨0, 0, 0, 0⟩, 0, 0, .input⟩
  ⟨⟨false, 0, 0⟩, slot, slot, 0, 0, false, false, ⟨fun _ => 0, 0, 0, false, fun _ => 0, 0, false⟩, slot, false,
    slot, false, false⟩

def event (x : BitVec 64) : Walker.Event := ⟨x, 5, 6, 7⟩

/-- The events 15 and 40, one after the other. -/
def twoEvents : List In := [⟨true, ⟨true, event 15⟩, false⟩, ⟨true, ⟨true, event 40⟩, false⟩]

theorem events_answered_two :
    collect (State.step fourRows) (requests fourRows) (blank 1)
      (twoEvents ++ List.replicate 12 ⟨false, ⟨false, event 0⟩, false⟩) =
      [⟨true, 1, event 15⟩] := by
  have sorted : Sorted fourRows := ⟨by decide, by decide⟩
  have reset : AfterReset (blank 1) := ⟨⟨rfl, rfl⟩, ⟨rfl, rfl⟩, rfl, rfl, ⟨rfl, rfl⟩, rfl, ⟨rfl, rfl⟩, rfl⟩
  have answers := (events_answered fourRows sorted reset twoEvents).2
    (List.replicate 12 ⟨false, ⟨false, event 0⟩, false⟩)
    (by decide) (by decide)
  have due : (collect (State.step fourRows) taken (blank 1) twoEvents).filterMap (answer fourRows) =
      [⟨true, 1, event 15⟩] := by decide
  rw [due] at answers
  exact List.singleton_perm.mp answers

end WrCores.Eca.Search
