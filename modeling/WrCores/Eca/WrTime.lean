import Mathlib.Data.BitVec
import Mathlib.Data.List.Chain
import Mathlib.Tactic.Ring
import WrCores.Clocked.Run
import WrCores.Eca.Offset

/-!
eca_wr_time.vhd: seconds and cycles become one count of cycles. Three products go round a loop of three
registers, the one of `r0_a` and `r0_b` and the two of the adder, and `r0_state` counts their turns; eca_adder
is a sum that comes out two cycles later.
-/

namespace WrCores.Eca

open Clocked

structure WrClock where
  tai : BitVec 40
  cycles : BitVec 28
  deriving DecidableEq, Repr

structure WrTime where
  r0State : BitVec 5 := 2
  r0Cycles : BitVec 28 := 0
  r1Cycles : BitVec 28 := 0
  r2Cycles : BitVec 28 := 0
  r0TimeOut : BitVec 64 := 0
  r0A : BitVec 64 := 0
  r0B : BitVec 64 := 0
  -- the two stages of the adder
  r1Sum : BitVec 64 := 0
  s2Sum : BitVec 64 := 0
  counter : Offset := {}
  deriving DecidableEq, Repr

namespace WrTime

def s0Load (s : WrTime) : Bool := s.r0State < 3

def s0Cycles (s : WrTime) : Bool := s.r0State < 6

def nextState (s : WrTime) : BitVec 5 := if s.r0State = 0 then 29 else s.r0State - 1

/-- The registers `r0_a`, `r0_b` and `r0_cycles` after the edge. -/
def multiplier (s : WrTime) (i : WrClock) : BitVec 64 × BitVec 64 × BitVec 28 :=
  if s.s0Load then (i.tai.setWidth 64, (i.tai ++ 0#2).setWidth 64, i.cycles)
  else if s.s0Cycles then (s.s2Sum.extractLsb' 0 58 ++ 0b011111#6, s.r2Cycles.setWidth 64, s.r2Cycles)
  else (s.s2Sum, s.s2Sum.extractLsb' 0 62 ++ 0#2, s.r2Cycles)

def step (s : WrTime) (i : WrClock) : WrTime :=
  let m := s.multiplier i
  { r0State := s.nextState
    r0A := m.1, r0B := m.2.1, r0Cycles := m.2.2
    r1Cycles := s.r0Cycles, r2Cycles := s.r1Cycles
    r1Sum := s.r0A + s.r0B, s2Sum := s.r1Sum
    counter := s.counter.main s.r0TimeOut
    r0TimeOut := if s.s0Load then s.s2Sum else s.counter.x2 s.r0TimeOut }

def timeO (s : WrTime) : BitVec 64 := s.r0TimeOut.extractLsb' 0 61 ++ 0#3


end WrTime

namespace WrClock

/-- The time in cycles. -/
def count (i : WrClock) : BitVec 64 := 125000000 * i.tai.setWidth 64 + i.cycles.setWidth 64

/-- One cycle of a White Rabbit clock. -/
def Advances (i next : WrClock) : Prop :=
  (i.cycles.toNat + 1 < 125000000 ∧ next.cycles.toNat = i.cycles.toNat + 1 ∧ next.tai = i.tai) ∨
  (i.cycles.toNat + 1 = 125000000 ∧ next.cycles.toNat = 0 ∧ next.tai.toNat = i.tai.toNat + 1)

instance (i next : WrClock) : Decidable (Advances i next) := inferInstanceAs (Decidable (_ ∨ _))

theorem count_advances {i next : WrClock} (advances : Advances i next) : next.count = i.count + 1 := by
  apply BitVec.eq_of_toNat_eq
  have small := i.cycles.isLt
  have small' := next.cycles.isLt
  have tai := i.tai.isLt
  have tai' := next.tai.isLt
  simp only [count, BitVec.toNat_add, BitVec.toNat_mul, BitVec.toNat_setWidth, BitVec.ofNat_eq_ofNat,
    BitVec.toNat_ofNat]
  rcases advances with ⟨-, cycles, same⟩ | ⟨full, cycles, second⟩
  · rw [cycles, same]
    omega
  · rw [cycles, second]
    omega

end WrClock

namespace WrTime

/-- A product by the number of its turns: nine times by five, then by 64 with the cycles. -/
def product (turn : Nat) (tai cycles : BitVec 64) : BitVec 64 :=
  if turn ≤ 8 then 5 ^ (turn + 1) * tai else 125000000 * tai + 31 + cycles

/-- The turns that the product in `r0_a` and `r0_b` has made in this state. -/
def turn (state : Nat) : Nat := if state ≤ 1 then 0 else (31 - state) / 3

/-- A register holds the product of a time this many cycles ago. -/
def Holds (now : BitVec 64) (turn age : Nat) (sum : BitVec 64) (cycles : BitVec 28) : Prop :=
  ∃ tai : BitVec 64, sum = product turn tai (cycles.setWidth 64) ∧
    125000000 * tai + cycles.setWidth 64 + BitVec.ofNat 64 age = now

/-- From this many cycles on the output follows the clock. -/
def settles (state : Nat) : Nat := if state ≤ 1 ∨ state = 29 then 31 else 62 - state

/-- The clock has run for `n` cycles; what was loaded since is right. -/
structure Following (n : Nat) (now : BitVec 64) (s : WrTime) : Prop where
  state : s.r0State.toNat ≤ 29
  first : 3 * turn s.r0State.toNat + 1 ≤ n →
    Holds now (turn s.r0State.toNat) (3 * turn s.r0State.toNat + 1) (s.r0A + s.r0B) s.r0Cycles
  second : 3 * turn ((s.r0State.toNat + 1) % 30) + 2 ≤ n →
    Holds now (turn ((s.r0State.toNat + 1) % 30)) (3 * turn ((s.r0State.toNat + 1) % 30) + 2) s.r1Sum s.r1Cycles
  third : 3 * turn ((s.r0State.toNat + 2) % 30) + 3 ≤ n →
    Holds now (turn ((s.r0State.toNat + 2) % 30)) (3 * turn ((s.r0State.toNat + 2) % 30) + 3) s.s2Sum s.r2Cycles
  time : settles s.r0State.toNat ≤ n → s.r0TimeOut = now
  seen1 : settles ((s.r0State.toNat + 1) % 30) + 1 ≤ n → s.counter.Seen1 (now - 1)
  seen2 : settles ((s.r0State.toNat + 2) % 30) + 2 ≤ n → s.counter.Seen2 (now - 2)

theorem times_four (x : BitVec 64) : x.extractLsb' 0 62 ++ 0#2 = 4 * x := by
  apply BitVec.eq_of_toNat_eq
  rw [append_toNat, BitVec.extractLsb'_toNat, BitVec.toNat_mul, Nat.shiftRight_zero]
  simp only [BitVec.ofNat_eq_ofNat, BitVec.toNat_ofNat]
  omega

theorem times_sixtyfour (x : BitVec 64) : x.extractLsb' 0 58 ++ 0b011111#6 = 64 * x + 31 := by
  apply BitVec.eq_of_toNat_eq
  rw [append_toNat, BitVec.extractLsb'_toNat, BitVec.toNat_add, BitVec.toNat_mul, Nat.shiftRight_zero]
  simp only [BitVec.ofNat_eq_ofNat, BitVec.toNat_ofNat]
  omega

theorem load_four (tai : BitVec 40) : (tai ++ 0#2).setWidth 64 = 4 * tai.setWidth 64 := by
  have small := tai.isLt
  apply BitVec.eq_of_toNat_eq
  rw [BitVec.toNat_setWidth, append_toNat, BitVec.toNat_mul, BitVec.toNat_setWidth]
  simp only [BitVec.ofNat_eq_ofNat, BitVec.toNat_ofNat]
  omega

section Step

variable {n : Nat} {now : BitVec 64} {s : WrTime} {i : WrClock}

theorem Holds.older {turn age : Nat} {sum : BitVec 64} {cycles : BitVec 28} (holds : Holds now turn age sum cycles) :
    Holds (now + 1) turn (age + 1) sum cycles := by
  obtain ⟨tai, value, time⟩ := holds
  refine ⟨tai, value, ?_⟩
  rw [← time, BitVec.ofNat_add, ← add_assoc]
  rfl

/-- A product is loaded. -/
theorem holds_load (current : i.count = now) :
    Holds (now + 1) 0 1 (i.tai.setWidth 64 + (i.tai ++ 0#2).setWidth 64) i.cycles := by
  refine ⟨i.tai.setWidth 64, ?_, ?_⟩
  · rw [load_four, product, if_pos (by decide)]
    ring
  · rw [← current, WrClock.count]
    rfl

/-- Another time by five. -/
theorem Holds.five {turn age : Nat} {sum : BitVec 64} {cycles : BitVec 28} (holds : Holds now turn age sum cycles)
    (more : turn + 1 ≤ 8) : Holds (now + 1) (turn + 1) (age + 1) (sum + (sum.extractLsb' 0 62 ++ 0#2)) cycles := by
  obtain ⟨tai, value, time⟩ := holds.older
  refine ⟨tai, ?_, time⟩
  rw [times_four, value, product, product, if_pos more, if_pos (by omega)]
  ring

/-- The last turn, with the cycles and the 31 cycles it takes. -/
theorem Holds.last {age : Nat} {sum : BitVec 64} {cycles : BitVec 28} (holds : Holds now 8 age sum cycles) :
    Holds (now + 1) 9 (age + 1) ((sum.extractLsb' 0 58 ++ 0b011111#6) + cycles.setWidth 64) cycles := by
  obtain ⟨tai, value, time⟩ := holds.older
  refine ⟨tai, ?_, time⟩
  rw [times_sixtyfour, value, product, product, if_pos (by decide), if_neg (by decide)]
  have power : (64 : BitVec 64) * 5 ^ (8 + 1) = 125000000 := by decide
  rw [← mul_assoc, power]

theorem nextState_toNat (small : s.r0State.toNat ≤ 29) :
    s.nextState.toNat = if s.r0State.toNat = 0 then 29 else s.r0State.toNat - 1 := by
  rw [nextState]
  by_cases zero : s.r0State = 0
  · rw [if_pos zero, if_pos (by rw [zero]; rfl)]
    rfl
  · have positive : s.r0State.toNat ≠ 0 := fun none => zero (BitVec.eq_of_toNat_eq none)
    rw [if_neg zero, if_neg positive]
    bv_omega

theorem load_iff : s.s0Load = true ↔ s.r0State.toNat < 3 := by
  simp [s0Load, BitVec.lt_def]

theorem cycles_iff : s.s0Cycles = true ↔ s.r0State.toNat < 6 := by
  simp [s0Cycles, BitVec.lt_def]

theorem Following.first_step (f : Following n now s) (current : i.count = now) {state : Nat}
    (next : state = if s.r0State.toNat = 0 then 29 else s.r0State.toNat - 1) (old : 3 * turn state + 1 ≤ n + 1) :
    Holds (now + 1) (turn state) (3 * turn state + 1) ((s.multiplier i).1 + (s.multiplier i).2.1)
      (s.multiplier i).2.2 := by
  have small := f.state
  rw [multiplier]
  by_cases load : s.r0State.toNat < 3
  · have zero : turn state = 0 := by
      unfold turn
      split_ifs at * <;> omega
    rw [if_pos (load_iff.mpr load), zero]
    exact holds_load current
  · rw [if_neg (fun yes => load (load_iff.mp yes))]
    have third := f.third
    by_cases cycles : s.r0State.toNat < 6
    · have eight : turn ((s.r0State.toNat + 2) % 30) = 8 := by
        unfold turn
        split_ifs <;> omega
      have nine : turn state = 9 := by
        unfold turn
        split_ifs at * <;> omega
      rw [eight] at third
      rw [nine] at old
      rw [if_pos (cycles_iff.mpr cycles), nine]
      exact (third (by omega)).last
    · have more : turn state = turn ((s.r0State.toNat + 2) % 30) + 1 ∧ turn state ≤ 8 := by
        unfold turn
        split_ifs at * <;> omega
      obtain ⟨next, inside⟩ := more
      rw [next] at old inside
      rw [if_neg (fun yes => cycles (cycles_iff.mp yes)), next]
      exact (third (by omega)).five inside

/-- The output is loaded from a finished product, or grows by one. -/
theorem Following.time_step (f : Following n now s) {state : Nat}
    (next : state = if s.r0State.toNat = 0 then 29 else s.r0State.toNat - 1) (settled : settles state ≤ n + 1) :
    (if s.s0Load then s.s2Sum else s.counter.x2 s.r0TimeOut) = now + 1 := by
  have small := f.state
  by_cases load : s.r0State.toNat < 3
  · have nine : turn ((s.r0State.toNat + 2) % 30) = 9 := by
      unfold turn
      split_ifs <;> omega
    have enough : 30 ≤ n := by
      rw [next, settles] at settled
      split_ifs at settled <;> omega
    have third := f.third
    rw [nine] at third
    obtain ⟨tai, value, time⟩ := third (by omega)
    rw [if_pos (load_iff.mpr load), value, ← time, product, if_neg (by decide)]
    have ages : BitVec.ofNat 64 (3 * 9 + 3) + 1 = 31 := by decide
    rw [add_assoc _ (BitVec.ofNat 64 (3 * 9 + 3)) 1, ages]
    ring
  · rw [if_neg (fun yes => load (load_iff.mp yes))]
    have before : state = s.r0State.toNat - 1 := by rw [next, if_neg (by omega)]
    have enough : settles s.r0State.toNat ≤ n ∧ settles ((s.r0State.toNat + 2) % 30) + 2 ≤ n := by
      rw [before] at settled
      unfold settles at settled ⊢
      split_ifs at settled ⊢ <;> omega
    have sum := Offset.x2_eq s.counter (now - 2) (f.seen2 enough.2)
    rw [f.time enough.1]
    have two : now - 2 + 2 = now := by ring
    have three : now - 2 + 3 = now + 1 := by bv_omega
    rw [two, three] at sum
    exact sum

theorem Following.step (f : Following n now s) (current : i.count = now) : Following (n + 1) (now + 1) (s.step i) :=
    by
  have small := f.state
  have next := nextState_toNat small
  have one : (s.nextState.toNat + 1) % 30 = s.r0State.toNat := by
    rw [next]
    split_ifs <;> omega
  have two : (s.nextState.toNat + 2) % 30 = (s.r0State.toNat + 1) % 30 := by
    rw [next]
    split_ifs <;> omega
  constructor
  · show s.nextState.toNat ≤ 29
    rw [next]
    split_ifs <;> omega
  · exact f.first_step current next
  · show 3 * turn ((s.nextState.toNat + 1) % 30) + 2 ≤ n + 1 → _
    simp only [WrTime.step, one]
    intro old
    exact (f.first (by omega)).older
  · show 3 * turn ((s.nextState.toNat + 2) % 30) + 3 ≤ n + 1 → _
    simp only [WrTime.step, two]
    intro old
    exact (f.second (by omega)).older
  · exact f.time_step next
  · show settles ((s.nextState.toNat + 1) % 30) + 1 ≤ n + 1 → _
    rw [one]
    intro settled
    have seen := Offset.main_seen1 s.counter s.r0TimeOut
    rw [f.time (by omega)] at seen
    have back : now + 1 - 1 = now := by ring
    rw [back]
    simp only [WrTime.step]
    rwa [f.time (by omega)]
  · show settles ((s.nextState.toNat + 2) % 30) + 2 ≤ n + 1 → _
    rw [two]
    intro settled
    have back : now + 1 - 2 = now - 1 := by bv_omega
    rw [back]
    exact Offset.main_seen2 _ _ _ (f.seen1 (by omega))

end Step

theorem state_step {s : WrTime} (i : WrClock) (small : s.r0State.toNat ≤ 29) : (s.step i).r0State.toNat ≤ 29 := by
  show s.nextState.toNat ≤ 29
  rw [nextState_toNat small]
  split_ifs <;> omega

theorem state_run (s : WrTime) (inputs : List WrClock) (small : s.r0State.toNat ≤ 29) :
    (run step s inputs).r0State.toNat ≤ 29 := by
  induction inputs generalizing s with
  | nil => exact small
  | cons i rest ih => exact ih (s.step i) (state_step i small)

theorem following_run (clock : List WrClock) (now : WrClock) (isClock : (clock ++ [now]).IsChain WrClock.Advances)
    {n : Nat} {s : WrTime} (f : Following n ((clock ++ [now]).headD now).count s) :
    Following (n + clock.length) now.count (run step s clock) := by
  induction clock generalizing n s with
  | nil => exact f
  | cons i rest ih =>
      rw [List.cons_append, List.isChain_cons] at isClock
      have later : ((rest ++ [now]).headD now).count = i.count + 1 := by
        apply WrClock.count_advances
        apply isClock.1
        cases rest <;> rfl
      have moved := f.step (i := i) rfl
      rw [List.cons_append, List.headD_cons, ← later] at moved
      have followed := ih isClock.2 moved
      rw [List.length_cons, show n + (rest.length + 1) = n + 1 + rest.length by omega]
      exact followed

theorem timeO_toNat (s : WrTime) : s.timeO.toNat = 8 * s.r0TimeOut.toNat % 2 ^ 64 := by
  rw [timeO, append_toNat, BitVec.extractLsb'_toNat, Nat.shiftRight_zero]
  simp only [BitVec.toNat_ofNat]
  omega

theorem count_toNat (i : WrClock) : i.count.toNat = (125000000 * i.tai.toNat + i.cycles.toNat) % 2 ^ 64 := by
  have tai := i.tai.isLt
  have cycles := i.cycles.isLt
  simp only [WrClock.count, BitVec.toNat_add, BitVec.toNat_mul, BitVec.toNat_setWidth, BitVec.ofNat_eq_ofNat,
    BitVec.toNat_ofNat]
  omega

theorem le_settles (state : Nat) : state ≤ 29 → 31 ≤ settles state := by
  intro small
  rw [settles]
  split_ifs <;> omega

/-- From 62 cycles after reset, or after a jump of the clock, the output is the time of the same cycle. -/
theorem time_is_count (s : WrTime) (reset : s.r0State = 2) (pre clock : List WrClock) (now : WrClock)
    (isClock : (clock ++ [now]).IsChain WrClock.Advances) (settled : 62 ≤ clock.length) :
    (run step s (pre ++ clock)).timeO.toNat = 8 * (125000000 * now.tai.toNat + now.cycles.toNat) % 2 ^ 64 := by
  have small : (run step s pre).r0State.toNat ≤ 29 := state_run s pre (by rw [reset]; decide)
  have start : Following 0 ((clock ++ [now]).headD now).count (run step s pre) := by
    have late := le_settles _ small
    constructor
    case state => exact small
    all_goals
      intro early
      omega
  have following := following_run clock now isClock start
  have time := following.time (by
    rw [settles]
    split_ifs <;> omega)
  rw [run_append, timeO_toNat, time, count_toNat]
  omega

set_option maxRecDepth 4000 in
/-- The second ends within the 62 cycles. -/
theorem time_is_count_second :
    let clock := (List.range 62).map fun k : Nat =>
      if k < 40 then (⟨5, BitVec.ofNat 28 (124999960 + k)⟩ : WrClock) else ⟨6, BitVec.ofNat 28 (k - 40)⟩
    (run step {} ([⟨77, 3⟩] ++ clock)).timeO.toNat = 8 * (125000000 * 6 + 22) := by
  intro clock
  exact time_is_count {} rfl [⟨77, 3⟩] clock ⟨6, 22⟩ (by decide) (by decide)

end WrTime

end WrCores.Eca
