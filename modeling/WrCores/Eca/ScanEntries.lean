import Mathlib.Tactic
import WrCores.Eca.Offset
import WrCores.Eca.Scan

/-!
What eca_scan.vhd makes of a deadline when `time_i` goes on by the same amount in every cycle. Times are counted in
cycles: `k` is `r_time2` without its lower bits, and slot `i` is looked at when `k` is twice `i` modulo a round.
-/

namespace WrCores.Eca.Scan

open Clocked

variable {n lm cc e : Nat}

/-! ### Looking at the slots in turn -/

/-- The cycles of a round. -/
def round (n : Nat) : Nat := 2 * 2 ^ n

/-- The first cycle from `k` on in which a slot is looked at. -/
def firstVisit (n i k : Nat) : Nat := k + (2 * i + round n - k % round n) % round n

/-- The cycle of the look that a slot is waiting for; in the second cycle of a look it is this one. -/
def nextVisit (n i k : Nat) : Nat := firstVisit n i (k - k % 2)

theorem round_pos (n : Nat) : 0 < round n := Nat.mul_pos (by decide) (Nat.two_pow_pos n)

theorem firstVisit_spec {i : Nat} (slot : i < 2 ^ n) (k : Nat) :
    k ≤ firstVisit n i k ∧ firstVisit n i k < k + round n ∧ firstVisit n i k % round n = 2 * i := by
  have positive := round_pos n
  have below := Nat.mod_lt k positive
  have wait := Nat.mod_lt (2 * i + round n - k % round n) positive
  have small : 2 * i < round n := by
    rw [round]
    omega
  refine ⟨Nat.le_add_right _ _, Nat.add_lt_add_left wait k, ?_⟩
  rw [firstVisit, ← Nat.mod_add_mod, Nat.add_mod_mod,
    show k % round n + (2 * i + round n - k % round n) = 2 * i + round n by omega, Nat.add_mod_right,
    Nat.mod_eq_of_lt small]

theorem eq_of_residue {N k f g : Nat} (f_low : k ≤ f) (f_high : f < k + N) (g_low : k ≤ g) (g_high : g < k + N)
    (same : f % N = g % N) : f = g := by
  rcases le_total f g with less | less
  · have gap := Nat.sub_mod_eq_zero_of_mod_eq same.symm
    rw [Nat.mod_eq_of_lt (by omega)] at gap
    omega
  · have gap := Nat.sub_mod_eq_zero_of_mod_eq same
    rw [Nat.mod_eq_of_lt (by omega)] at gap
    omega

theorem firstVisit_unique {i k f : Nat} (slot : i < 2 ^ n) (low : k ≤ f) (high : f < k + round n)
    (residue : f % round n = 2 * i) : firstVisit n i k = f := by
  obtain ⟨first, last, visit⟩ := firstVisit_spec slot k
  exact eq_of_residue first last low high (visit.trans residue.symm)

theorem visit_even {i k : Nat} (visit : k % round n = 2 * i) : k % 2 = 0 := by
  have whole := Nat.div_add_mod k (round n)
  rw [visit, round, Nat.mul_assoc] at whole
  omega

/-- No slot is looked at first in an odd cycle. -/
theorem firstVisit_odd {i k : Nat} (slot : i < 2 ^ n) (odd : k % 2 = 1) :
    firstVisit n i (k + 1) = firstVisit n i k := by
  obtain ⟨first, last, visit⟩ := firstVisit_spec slot k
  have even := visit_even visit
  exact firstVisit_unique slot (by omega) (by omega) visit

theorem nextVisit_even {i k : Nat} (even : k % 2 = 0) : nextVisit n i k = firstVisit n i k := by
  rw [nextVisit, even, Nat.sub_zero]

theorem nextVisit_odd {i k : Nat} (odd : k % 2 = 1) : nextVisit n i k = firstVisit n i (k - 1) := by
  rw [nextVisit, odd]

/-- From a first cycle to the second. -/
theorem nextVisit_second {i k : Nat} (even : k % 2 = 0) : nextVisit n i (k + 1) = nextVisit n i k := by
  rw [nextVisit_even even, nextVisit_odd (by omega), Nat.add_sub_cancel]

/-- Past a look at another slot. -/
theorem nextVisit_other {i k : Nat} (slot : i < 2 ^ n) (odd : k % 2 = 1) (other : (k - 1) % round n ≠ 2 * i) :
    nextVisit n i (k + 1) = nextVisit n i k := by
  rw [nextVisit_even (by omega), nextVisit_odd odd]
  obtain ⟨first, last, visit⟩ := firstVisit_spec slot (k - 1)
  have later : firstVisit n i (k - 1) ≠ k - 1 := fun here => other (here ▸ visit)
  have even := visit_even visit
  exact firstVisit_unique slot (by omega) (by omega) visit

/-- Past a look at the slot itself. -/
theorem nextVisit_same {i k : Nat} (slot : i < 2 ^ n) (odd : k % 2 = 1) (here : (k - 1) % round n = 2 * i) :
    nextVisit n i k = k - 1 ∧ nextVisit n i (k + 1) = k - 1 + round n := by
  have positive := round_pos n
  have even : round n % 2 = 0 := by
    rw [round]
    omega
  constructor
  · rw [nextVisit_odd odd]
    exact firstVisit_unique slot le_rfl (by omega) here
  · rw [nextVisit_even (by omega)]
    exact firstVisit_unique slot (by omega) (by omega) (by rw [Nat.add_mod_right, here])

/-- The slot of a cycle. -/
theorem slot_residue {i k : Nat} (even : k % 2 = 0) : k % round n = 2 * i ↔ k / 2 % 2 ^ n = i := by
  have halves : k % round n = k % 2 + 2 * (k / 2 % 2 ^ n) := by rw [round, Nat.mod_mul]
  omega

/-! ### What a deadline becomes -/

/-- A deadline in its slot: the look at which it goes out, and what goes out with it. -/
structure Entry (n lm e : Nat) where
  visit : Nat
  late : Bool
  early : Bool
  ext : BitVec e
  low : BitVec (n + lm + 1)

/-- The last look at a slot that is not after the deadline, one round later. -/
def lastVisit (lm : Nat) (i : BitVec n) (deadline : BitVec 64) : Nat :=
  (deadline.toNat + 2 ^ (n + lm + 1) - 2 ^ (lm + 1) * i.toNat) / 2 ^ (n + lm + 1) * round n + 2 * i.toNat

def isLate (lm : Nat) (k : Nat) (i : BitVec n) (deadline : BitVec 64) : Bool :=
  decide (lastVisit lm i deadline < k + round n)

def isEarly (lm cc : Nat) (k : Nat) (i : BitVec n) (deadline : BitVec 64) : Bool :=
  decide (k + round n + round n * 2 ^ cc ≤ lastVisit lm i deadline)

/-- How often the deadline is passed over. -/
def passes (lm cc : Nat) (k : Nat) (i : BitVec n) (deadline : BitVec 64) : Nat :=
  if isLate lm k i deadline then 0
  else if isEarly lm cc k i deadline then 2 ^ cc - 1
  else (lastVisit lm i deadline - round n - k) / round n

/-- The entry of a deadline that is written into the table in cycle `k`. -/
def entry (cc : Nat) (k : Nat) (i : BitVec n) (deadline : BitVec 64) (ext : BitVec e) : Entry n lm e where
  visit := firstVisit n i.toNat k + passes lm cc k i deadline * round n
  late := isLate lm k i deadline
  early := isEarly lm cc k i deadline && !isLate lm k i deadline
  ext := ext
  low := deadline.setWidth (n + lm + 1)

theorem round_pow (n lm : Nat) : 2 ^ (n + lm + 1) = 2 ^ lm * round n := by
  rw [round, Nat.pow_succ, Nat.pow_add]
  ring

theorem lastVisit_residue (lm : Nat) (i : BitVec n) (deadline : BitVec 64) : lastVisit lm i deadline % round n =
    2 * i.toNat := by
  have slot := i.isLt
  have small : 2 * i.toNat < round n := by
    rw [round]
    omega
  rw [lastVisit, Nat.mul_add_mod_self_right, Nat.mod_eq_of_lt small]

/-- A deadline that is neither late nor early goes out at its last look. -/
theorem entry_visit {k : Nat} {i : BitVec n} {deadline : BitVec 64} {ext : BitVec e}
    (late : isLate lm k i deadline = false) (early : isEarly lm cc k i deadline = false) :
    (entry cc k i deadline ext : Entry n lm e).visit + round n = lastVisit lm i deadline := by
  have positive := round_pos n
  have after : k + round n ≤ lastVisit lm i deadline := by
    rw [isLate, decide_eq_false_iff_not] at late
    omega
  have whole := Nat.div_add_mod (lastVisit lm i deadline - round n - k) (round n)
  have rest := Nat.mod_lt (lastVisit lm i deadline - round n - k) positive
  have waits : passes lm cc k i deadline = (lastVisit lm i deadline - round n - k) / round n := by
    rw [passes, late, early, if_neg Bool.false_ne_true, if_neg Bool.false_ne_true]
  rw [Nat.mul_comm] at whole
  generalize (lastVisit lm i deadline - round n - k) / round n = rounds at whole waits
  have first : firstVisit n i.toNat k = lastVisit lm i deadline - round n - rounds * round n := by
    apply firstVisit_unique i.isLt
    · omega
    · omega
    · have split : lastVisit lm i deadline =
          lastVisit lm i deadline - round n - rounds * round n + (rounds + 1) * round n := by
        rw [Nat.add_mul, Nat.one_mul]
        omega
      rw [← lastVisit_residue lm i deadline]
      nth_rewrite 2 [split]
      rw [Nat.add_mul_mod_self_right]
  simp only [entry, waits, first]
  omega

/-! ### The pipeline in front of the table -/

/-- `r_output2` of a deadline. -/
def outputOf (lm : Nat) (i : BitVec n) (deadline : BitVec 64) : BitVec 65 :=
  let slot : BitVec 65 := (i ++ (0 : BitVec (lm + 1))).setWidth 65
  ((deadline.setWidth 65 - slot) >>> (n + lm + 1)) <<< (n + lm + 1) ||| slot

/-- The generics: the count has bits, and so has what is above `g_log_max_delay`. -/
structure Sizes (n lm cc : Nat) : Prop where
  size : 0 < n
  count : 0 < cc
  delay : n + lm + 1 + cc < 64

theorem slot_toNat (sizes : Sizes n lm cc) (i : BitVec n) :
    ((i ++ (0 : BitVec (lm + 1))).setWidth 65).toNat = 2 ^ (lm + 1) * i.toNat ∧
      2 ^ (lm + 1) * i.toNat < 2 ^ (n + lm + 1) := by
  have slot := i.isLt
  have bound : 2 ^ (lm + 1) * i.toNat < 2 ^ (n + lm + 1) := by
    rw [show n + lm + 1 = lm + 1 + n by omega, Nat.pow_add 2 (lm + 1) n]
    exact Nat.mul_lt_mul_of_pos_left slot (Nat.two_pow_pos _)
  have wide : 2 ^ (n + lm + 1) ≤ 2 ^ 65 := Nat.pow_le_pow_right (by decide) (by have := sizes.delay; omega)
  refine ⟨?_, bound⟩
  rw [BitVec.toNat_setWidth, append_toNat]
  simp only [BitVec.ofNat_eq_ofNat, BitVec.toNat_ofNat, Nat.zero_mod, Nat.add_zero]
  exact Nat.mod_eq_of_lt (by omega)

/-- In ticks: whole rounds and the place of the slot in them. -/
theorem lastVisit_ticks (lm : Nat) (i : BitVec n) (deadline : BitVec 64) :
    2 ^ lm * lastVisit lm i deadline =
      2 ^ (n + lm + 1) * ((deadline.toNat + 2 ^ (n + lm + 1) - 2 ^ (lm + 1) * i.toNat) / 2 ^ (n + lm + 1)) +
        2 ^ (lm + 1) * i.toNat := by
  rw [lastVisit, Nat.mul_add]
  congr 1
  · rw [Nat.mul_comm _ (round n), ← Nat.mul_assoc, ← round_pow]
  · rw [Nat.pow_succ, Nat.mul_assoc]

/-- `r_output2` is the last look, with a borrow where that comes before the start of time. -/
theorem outputOf_toNat (sizes : Sizes n lm cc) (i : BitVec n) (deadline : BitVec 64) :
    (outputOf lm i deadline).toNat = (2 ^ lm * lastVisit lm i deadline + 2 ^ 65 - 2 ^ (n + lm + 1)) % 2 ^ 65 := by
  obtain ⟨slot, below⟩ := slot_toNat sizes i
  have bound := deadline.isLt
  have positive := Nat.two_pow_pos (n + lm + 1)
  have wide : 2 ^ (n + lm + 1) ≤ 2 ^ 63 := Nat.pow_le_pow_right (by decide) (by have := sizes.delay; omega)
  have whole : 2 ^ 65 = 2 ^ (n + lm + 1) * 2 ^ (65 - (n + lm + 1)) := by
    rw [← Nat.pow_add]
    congr 1
    have := sizes.delay
    omega
  have parts : (outputOf lm i deadline).toNat = 2 ^ (n + lm + 1) *
      ((2 ^ 65 - 2 ^ (lm + 1) * i.toNat + deadline.toNat) % 2 ^ 65 / 2 ^ (n + lm + 1)) + 2 ^ (lm + 1) * i.toNat := by
    have low : deadline.toNat % 2 ^ 65 = deadline.toNat := Nat.mod_eq_of_lt (by omega)
    have short := Nat.mul_div_le ((2 ^ 65 - 2 ^ (lm + 1) * i.toNat + deadline.toNat) % 2 ^ 65) (2 ^ (n + lm + 1))
    have limit := Nat.mod_lt (2 ^ 65 - 2 ^ (lm + 1) * i.toNat + deadline.toNat) (show 0 < 2 ^ 65 by decide)
    rw [outputOf, BitVec.toNat_or, BitVec.toNat_shiftLeft, BitVec.toNat_ushiftRight, BitVec.toNat_sub, slot,
      BitVec.toNat_setWidth,
      low, Nat.shiftRight_eq_div_pow, Nat.shiftLeft_eq, Nat.mul_comm, Nat.mod_eq_of_lt (by omega),
      Nat.mul_comm (2 ^ (n + lm + 1)), ← Nat.shiftLeft_eq, ← Nat.shiftLeft_add_eq_or_of_lt below]
  rw [parts, lastVisit_ticks]
  generalize 2 ^ (lm + 1) * i.toNat = place at *
  by_cases after : place ≤ deadline.toNat
  · have rest : (2 ^ 65 - place + deadline.toNat) % 2 ^ 65 = deadline.toNat - place := by
      rw [show 2 ^ 65 - place + deadline.toNat = deadline.toNat - place + 2 ^ 65 by omega, Nat.add_mod_right,
        Nat.mod_eq_of_lt (by omega)]
    have next : (deadline.toNat + 2 ^ (n + lm + 1) - place) / 2 ^ (n + lm + 1) =
        (deadline.toNat - place) / 2 ^ (n + lm + 1) + 1 := by
      rw [show deadline.toNat + 2 ^ (n + lm + 1) - place = deadline.toNat - place + 2 ^ (n + lm + 1) by omega,
        Nat.add_div_right _ positive]
    have short := Nat.mul_div_le (deadline.toNat - place) (2 ^ (n + lm + 1))
    rw [rest, next, Nat.mul_add, Nat.mul_one]
    rw [show 2 ^ (n + lm + 1) * ((deadline.toNat - place) / 2 ^ (n + lm + 1)) + 2 ^ (n + lm + 1) + place + 2 ^ 65 -
      2 ^ (n + lm + 1) = 2 ^ (n + lm + 1) * ((deadline.toNat - place) / 2 ^ (n + lm + 1)) + place + 2 ^ 65 by omega,
      Nat.add_mod_right, Nat.mod_eq_of_lt (by omega)]
  · have rest : (2 ^ 65 - place + deadline.toNat) % 2 ^ 65 = 2 ^ 65 - place + deadline.toNat :=
      Nat.mod_eq_of_lt (by omega)
    have quotient : (2 ^ 65 - place + deadline.toNat) / 2 ^ (n + lm + 1) = 2 ^ (65 - (n + lm + 1)) - 1 := by
      rw [Nat.div_eq_iff positive, Nat.mul_comm, Nat.mul_sub, ← whole, Nat.mul_one]
      omega
    have none : (deadline.toNat + 2 ^ (n + lm + 1) - place) / 2 ^ (n + lm + 1) = 0 := Nat.div_eq_of_lt (by omega)
    rw [rest, quotient, none, Nat.mul_zero, Nat.mul_sub, ← whole, Nat.mul_one, Nat.mod_eq_of_lt (by omega)]
    omega

/-- `r_count3` of a deadline whose turn to be written comes in cycle `k`. -/
def countOf (lm k : Nat) (i : BitVec n) (deadline : BitVec 64) : BitVec 65 :=
  outputOf lm i deadline - BitVec.ofNat 65 (2 ^ lm * k)

/-- A deadline is not so far away that its last look would overflow. -/
theorem lastVisit_le (lm : Nat) (i : BitVec n) (deadline : BitVec 64) :
    2 ^ lm * lastVisit lm i deadline ≤ deadline.toNat + 2 ^ (n + lm + 1) ∨
      deadline.toNat < 2 ^ (lm + 1) * i.toNat ∧ 2 ^ lm * lastVisit lm i deadline = 2 ^ (lm + 1) * i.toNat := by
  have slot := i.isLt
  have below : 2 ^ (lm + 1) * i.toNat < 2 ^ (n + lm + 1) := by
    rw [show n + lm + 1 = lm + 1 + n by omega, Nat.pow_add 2 (lm + 1) n]
    exact Nat.mul_lt_mul_of_pos_left slot (Nat.two_pow_pos _)
  rw [lastVisit_ticks]
  by_cases after : 2 ^ (lm + 1) * i.toNat ≤ deadline.toNat
  · have short := Nat.mul_div_le (deadline.toNat + 2 ^ (n + lm + 1) - 2 ^ (lm + 1) * i.toNat) (2 ^ (n + lm + 1))
    omega
  · right
    rw [Nat.div_eq_of_lt (by omega), Nat.mul_zero]
    omega

/-- Neither the borrow nor the difference leaves 65 bits while time is far from its end. -/
theorem countOf_toNat (sizes : Sizes n lm cc) {k : Nat} (far : 2 ^ lm * k + 2 ^ (n + lm + 1) ≤ 2 ^ 64) (i : BitVec n)
    (deadline : BitVec 64) :
    (countOf lm k i deadline).toNat =
      if 2 ^ lm * lastVisit lm i deadline < 2 ^ lm * (k + round n) then
        2 ^ 65 - (2 ^ lm * (k + round n) - 2 ^ lm * lastVisit lm i deadline)
      else 2 ^ lm * lastVisit lm i deadline - 2 ^ lm * (k + round n) := by
  have bound := deadline.isLt
  have positive := Nat.two_pow_pos (n + lm + 1)
  have limit := lastVisit_le lm i deadline
  have below := (slot_toNat sizes i).2
  have ticks : 2 ^ lm * (k + round n) = 2 ^ lm * k + 2 ^ (n + lm + 1) := by rw [Nat.mul_add, ← round_pow]
  have wide : 2 ^ (n + lm + 1) ≤ 2 ^ 63 := Nat.pow_le_pow_right (by decide) (by have := sizes.delay; omega)
  rw [countOf, BitVec.toNat_sub, outputOf_toNat sizes, BitVec.toNat_ofNat, Nat.mod_eq_of_lt
    (by omega : 2 ^ lm * k < 2 ^ 65),
    ticks, Nat.add_mod_mod]
  generalize 2 ^ lm * lastVisit lm i deadline = last at *
  split
  next before =>
    rw [show 2 ^ 65 - 2 ^ lm * k + (last + 2 ^ 65 - 2 ^ (n + lm + 1)) =
      2 ^ 65 - (2 ^ lm * k + 2 ^ (n + lm + 1) - last) + 2 ^ 65 by omega, Nat.add_mod_right,
      Nat.mod_eq_of_lt (by omega)]
  next after =>
    rw [show 2 ^ 65 - 2 ^ lm * k + (last + 2 ^ 65 - 2 ^ (n + lm + 1)) =
      last - (2 ^ lm * k + 2 ^ (n + lm + 1)) + 2 ^ 65 + 2 ^ 65 by omega, Nat.add_mod_right, Nat.add_mod_right,
      Nat.mod_eq_of_lt (by omega)]

/-- What is above `g_log_max_delay`. -/
theorem above_delay (sizes : Sizes n lm cc) {x : BitVec 65} (small : x.toNat < 2 ^ 64) :
    fEcaOr (x.extractLsb' (n + lm + 1 + cc) (64 - (n + lm + 1 + cc))) = decide (2 ^ (n + lm + 1 + cc) ≤ x.toNat) := by
  have delay := sizes.delay
  have whole : 2 ^ 64 = 2 ^ (n + lm + 1 + cc) * 2 ^ (64 - (n + lm + 1 + cc)) := by
    rw [← Nat.pow_add]
    congr 1
    omega
  have fits : x.toNat / 2 ^ (n + lm + 1 + cc) < 2 ^ (64 - (n + lm + 1 + cc)) :=
    Nat.div_lt_of_lt_mul (whole ▸ small)
  rw [fEcaOr_eq (by omega), decide_eq_decide, Ne, ← BitVec.toNat_inj, BitVec.extractLsb'_toNat,
    Nat.shiftRight_eq_div_pow, Nat.mod_eq_of_lt fits]
  simp only [BitVec.ofNat_eq_ofNat, BitVec.toNat_ofNat, Nat.zero_mod]
  rw [Nat.div_eq_zero_iff_lt (Nat.two_pow_pos _), Nat.not_lt]

/-- The record of a deadline is the one its entry asks for. -/
theorem record_entry (sizes : Sizes n lm cc) {s : State n lm cc e} {k : Nat}
    (far : 2 ^ lm * k + 2 ^ (n + lm + 1) ≤ 2 ^ 64) {i : BitVec n} {deadline : BitVec 64}
    (count : s.rCount3 = countOf lm k i deadline) :
    s.sLate3 = isLate lm k i deadline ∧
      s.sEarly3 = (isEarly lm cc k i deadline && !isLate lm k i deadline) ∧
      s.sCount3.toNat = passes lm cc k i deadline := by
  have value := countOf_toNat sizes far i deadline
  rw [← count] at value
  have unit := Nat.two_pow_pos lm
  have bound := deadline.isLt
  have limit := lastVisit_le lm i deadline
  have below := (slot_toNat sizes i).2
  have ticks : 2 ^ lm * (k + round n) = 2 ^ lm * k + 2 ^ (n + lm + 1) := by rw [Nat.mul_add, ← round_pow]
  have top : s.sLate3 = decide (2 ^ 64 ≤ s.rCount3.toNat) := by
    have msb := BitVec.msb_eq_decide s.rCount3
    rw [BitVec.msb_eq_getLsbD_last] at msb
    exact msb
  by_cases before : lastVisit lm i deadline < k + round n
  · have late : isLate lm k i deadline = true := decide_eq_true before
    have order : 2 ^ lm * lastVisit lm i deadline < 2 ^ lm * (k + round n) := Nat.mul_lt_mul_of_pos_left before unit
    have set : s.sLate3 = true := by
      rw [if_pos order] at value
      rw [top]
      exact decide_eq_true (by omega)
    refine ⟨set.trans late.symm, ?_, ?_⟩
    · rw [State.sEarly3, set, late, Bool.not_true, Bool.and_false, Bool.and_false]
    · rw [State.sCount3, set, if_pos rfl, passes, late, if_pos rfl]
      simp
  · have late : isLate lm k i deadline = false := decide_eq_false before
    have order : ¬2 ^ lm * lastVisit lm i deadline < 2 ^ lm * (k + round n) := by
      rw [Nat.mul_lt_mul_left unit]
      exact before
    rw [if_neg order] at value
    have small : s.rCount3.toNat < 2 ^ 64 := by omega
    have clear : s.sLate3 = false := by
      rw [top]
      exact decide_eq_false (by omega)
    have delay : 2 ^ (n + lm + 1 + cc) = 2 ^ lm * (round n * 2 ^ cc) := by
      rw [Nat.pow_add, round_pow, Nat.mul_assoc]
    have early : s.sEarly3 = isEarly lm cc k i deadline := by
      rw [State.sEarly3, clear, Bool.not_false, Bool.and_true, above_delay sizes small, value, isEarly, delay,
        decide_eq_decide, ← Nat.mul_sub, Nat.mul_le_mul_left_iff unit]
      omega
    refine ⟨clear.trans late.symm, ?_, ?_⟩
    · rw [early, late, Bool.not_false, Bool.and_true]
    · rw [State.sCount3, clear, if_neg Bool.false_ne_true, early, passes, late, if_neg Bool.false_ne_true]
      cases far' : isEarly lm cc k i deadline with
      | true => simp
      | false =>
          rw [if_neg Bool.false_ne_true, if_neg Bool.false_ne_true, BitVec.extractLsb'_toNat,
            Nat.shiftRight_eq_div_pow, value, ← Nat.mul_sub, round_pow, Nat.mul_div_mul_left _ _ unit,
            show lastVisit lm i deadline - (k + round n) = lastVisit lm i deadline - round n - k by omega]
          apply Nat.mod_eq_of_lt
          rw [isEarly, decide_eq_false_iff_not] at far'
          exact Nat.div_lt_of_lt_mul (by omega)

end WrCores.Eca.Scan
