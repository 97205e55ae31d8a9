import Mathlib.Tactic
import WrCores.Eca.Offset

/-!
eca_adder.vhd with its default generics, 64 bits in four parts, as all its users instantiate it. The first stage adds
the parts and notes which of them generate or propagate a carry, the second knows the carries.
-/

namespace WrCores.Eca

structure Adder where
  r1Sum0 : Nat → BitVec 16
  r1P : BitVec 4
  r1G : BitVec 4
  r1C : Bool
  r2Sum0 : Nat → BitVec 16
  r2C : BitVec 4
  r2CH : Bool

namespace Adder

/-- The four carries of the parts as a vector. -/
def carries (c : Nat → Bool) : BitVec 4 :=
  BitVec.ofBool (c 3) ++ BitVec.ofBool (c 2) ++ BitVec.ofBool (c 1) ++ BitVec.ofBool (c 0)

def s1R (s : Adder) : BitVec 5 := fEcaRipple s.r1P s.r1G s.r1C

def main (s : Adder) (a b : BitVec 64) (c : Bool) : Adder where
  r1Sum0 i := (fEcaRipple (part a i) (part b i) false).extractLsb' 0 16
  r1G := carries fun i => (fEcaRipple (part a i) (part b i) false).getLsbD 16
  r1P := carries fun i => (fEcaRipple (part a i) (part b i) true).getLsbD 16
  r1C := c
  r2Sum0 := s.r1Sum0
  r2C := s.s1R.extractLsb' 0 4 ^^^ (s.r1P ^^^ s.r1G)
  r2CH := s.s1R.getLsbD 4

def c1 (s : Adder) : Bool := s.s1R.getLsbD 4

def c2 (s : Adder) : Bool := s.r2CH

def sumPart (s : Adder) (i : Nat) : BitVec 16 :=
  (fEcaRipple (s.r2Sum0 i) 0 (s.r2C.getLsbD i)).extractLsb' 0 16

def x2 (s : Adder) : BitVec 64 := s.sumPart 3 ++ s.sumPart 2 ++ s.sumPart 1 ++ s.sumPart 0

/-- The carry into part `i` of the sum. -/
def carryIn (a b : BitVec 64) (c : Bool) : Nat → Bool
  | 0 => c
  | i + 1 => decide (2 ^ 16 ≤ (part a i).toNat + (part b i).toNat + (carryIn a b c i).toNat)

/-- A part passes the carry on where it propagates, and makes its own where it generates. -/
theorem ripple_carryIn : ∀ p3 p2 p1 p0 g3 g2 g1 g0 c : Bool,
    let p := BitVec.ofBool p3 ++ BitVec.ofBool p2 ++ BitVec.ofBool p1 ++ BitVec.ofBool p0
    let g := BitVec.ofBool g3 ++ BitVec.ofBool g2 ++ BitVec.ofBool g1 ++ BitVec.ofBool g0
    let out := (fEcaRipple p g c).extractLsb' 0 4 ^^^ (p ^^^ g)
    let c1 := (p0 && g0) || (c && (p0 || g0))
    let c2 := (p1 && g1) || (c1 && (p1 || g1))
    let c3 := (p2 && g2) || (c2 && (p2 || g2))
    out.getLsbD 0 = c ∧ out.getLsbD 1 = c1 ∧ out.getLsbD 2 = c2 ∧ out.getLsbD 3 = c3 ∧
      (fEcaRipple p g c).getLsbD 4 = ((p3 && g3) || (c3 && (p3 || g3))) := by
  decide

theorem majority {x : Nat} {c : Bool} (small : x < 2 ^ 17) :
    (decide (2 ^ 16 ≤ x + 1) && decide (2 ^ 16 ≤ x) || c && (decide (2 ^ 16 ≤ x + 1) || decide (2 ^ 16 ≤ x))) =
      decide (2 ^ 16 ≤ x + c.toNat) := by
  cases c with
  | false =>
      rw [Bool.false_and, Bool.or_false, Bool.toNat_false, Nat.add_zero, ← Bool.decide_and, decide_eq_decide]
      omega
  | true =>
      rw [Bool.true_and, Bool.toNat_true, ← Bool.decide_and, ← Bool.decide_or, ← Bool.decide_or, decide_eq_decide]
      omega

/-- The carries of the first stage, seen through the ripple of the second. -/
theorem main_carries (s : Adder) (a b : BitVec 64) (c : Bool) :
    let s' := s.main a b c
    let out := s'.s1R.extractLsb' 0 4 ^^^ (s'.r1P ^^^ s'.r1G)
    (∀ i < 4, out.getLsbD i = carryIn a b c i) ∧ s'.s1R.getLsbD 4 = carryIn a b c 4 := by
  have generates (i : Nat) : (fEcaRipple (part a i) (part b i) false).getLsbD 16 =
      decide (2 ^ 16 ≤ (part a i).toNat + (part b i).toNat) := by
    rw [Offset.carry_eq, Bool.toNat_false, Nat.add_zero]
  have propagates (i : Nat) : (fEcaRipple (part a i) (part b i) true).getLsbD 16 =
      decide (2 ^ 16 ≤ (part a i).toNat + (part b i).toNat + 1) := by
    rw [Offset.carry_eq, Bool.toNat_true]
  have next (i : Nat) : carryIn a b c (i + 1) =
      ((fEcaRipple (part a i) (part b i) true).getLsbD 16 && (fEcaRipple (part a i) (part b i) false).getLsbD 16 ||
        carryIn a b c i && ((fEcaRipple (part a i) (part b i) true).getLsbD 16 ||
          (fEcaRipple (part a i) (part b i) false).getLsbD 16)) := by
    have left := (part a i).isLt
    have right := (part b i).isLt
    rw [generates, propagates, majority (by omega), carryIn]
  obtain ⟨zero, one, two, three, four⟩ := ripple_carryIn
    ((fEcaRipple (part a 3) (part b 3) true).getLsbD 16) ((fEcaRipple (part a 2) (part b 2) true).getLsbD 16)
    ((fEcaRipple (part a 1) (part b 1) true).getLsbD 16) ((fEcaRipple (part a 0) (part b 0) true).getLsbD 16)
    ((fEcaRipple (part a 3) (part b 3) false).getLsbD 16) ((fEcaRipple (part a 2) (part b 2) false).getLsbD 16)
    ((fEcaRipple (part a 1) (part b 1) false).getLsbD 16) ((fEcaRipple (part a 0) (part b 0) false).getLsbD 16) c
  have start : carryIn a b c 0 = c := rfl
  have first := next 0
  have second := next 1
  have third := next 2
  have fourth := next 3
  rw [start] at first
  rw [← first] at one two three four
  rw [← second] at two three four
  rw [← third] at three four
  rw [← fourth] at four
  refine ⟨fun i inside => ?_, four⟩
  interval_cases i
  · exact zero
  · exact one
  · exact two
  · exact three

/-- A part of the sum. -/
def digit (a b : BitVec 64) (c : Bool) (i : Nat) : Nat :=
  ((part a i).toNat + (part b i).toNat + (carryIn a b c i).toNat) % 2 ^ 16

theorem part_sum (a b : BitVec 64) (c : Bool) (i : Nat) :
    (part a i).toNat + (part b i).toNat + (carryIn a b c i).toNat =
      2 ^ 16 * (carryIn a b c (i + 1)).toNat + digit a b c i := by
  have left := (part a i).isLt
  have right := (part b i).isLt
  have small := (carryIn a b c i).toNat_le
  rw [carryIn, digit]
  by_cases carry : 2 ^ 16 ≤ (part a i).toNat + (part b i).toNat + (carryIn a b c i).toNat
  · rw [decide_eq_true carry, Bool.toNat_true]
    omega
  · rw [decide_eq_false carry, Bool.toNat_false]
    omega

theorem parts_toNat (a : BitVec 64) : a.toNat =
    (part a 0).toNat + 2 ^ 16 * (part a 1).toNat + 2 ^ 32 * (part a 2).toNat + 2 ^ 48 * (part a 3).toNat := by
  have bound := a.isLt
  rw [Offset.part_toNat, Offset.part_toNat, Offset.part_toNat, Offset.part_toNat]
  omega

/-- The parts of the sum and the carry out of the last one. -/
theorem sum_parts (a b : BitVec 64) (c : Bool) :
    a.toNat + b.toNat + c.toNat =
      digit a b c 0 + 2 ^ 16 * digit a b c 1 + 2 ^ 32 * digit a b c 2 + 2 ^ 48 * digit a b c 3 +
        2 ^ 64 * (carryIn a b c 4).toNat := by
  have zero : (part a 0).toNat + (part b 0).toNat + c.toNat =
      2 ^ 16 * (carryIn a b c 1).toNat + digit a b c 0 := part_sum a b c 0
  have one : (part a 1).toNat + (part b 1).toNat + (carryIn a b c 1).toNat =
      2 ^ 16 * (carryIn a b c 2).toNat + digit a b c 1 := part_sum a b c 1
  have two : (part a 2).toNat + (part b 2).toNat + (carryIn a b c 2).toNat =
      2 ^ 16 * (carryIn a b c 3).toNat + digit a b c 2 := part_sum a b c 2
  have three : (part a 3).toNat + (part b 3).toNat + (carryIn a b c 3).toNat =
      2 ^ 16 * (carryIn a b c 4).toNat + digit a b c 3 := part_sum a b c 3
  rw [parts_toNat a, parts_toNat b]
  omega

theorem digits_below (a b : BitVec 64) (c : Bool) :
    digit a b c 0 + 2 ^ 16 * digit a b c 1 + 2 ^ 32 * digit a b c 2 + 2 ^ 48 * digit a b c 3 < 2 ^ 64 := by
  have below (i : Nat) : digit a b c i < 2 ^ 16 := Nat.mod_lt _ (by decide)
  have zero := below 0
  have one := below 1
  have two := below 2
  have three := below 3
  omega

theorem main_c1 (s : Adder) (a b : BitVec 64) (c : Bool) :
    (s.main a b c).c1 = decide (2 ^ 64 ≤ a.toNat + b.toNat + c.toNat) := by
  have carry : (s.main a b c).c1 = carryIn a b c 4 := (s.main_carries a b c).2
  have below := digits_below a b c
  rw [carry, sum_parts]
  cases carryIn a b c 4 with
  | false =>
      rw [Bool.toNat_false]
      exact (decide_eq_false (by omega)).symm
  | true =>
      rw [Bool.toNat_true]
      exact (decide_eq_true (by omega)).symm

/-- The sum comes out two edges behind its operands, whatever follows them. -/
theorem main_x2 (s : Adder) (a b a' b' : BitVec 64) (c c' : Bool) :
    ((s.main a b c).main a' b' c').x2.toNat = (a.toNat + b.toNat + c.toNat) % 2 ^ 64 := by
  have carries := (s.main_carries a b c).1
  have sums (i : Nat) (inside : i < 4) : (((s.main a b c).main a' b' c').sumPart i).toNat = digit a b c i := by
    have carry : ((s.main a b c).main a' b' c').r2C.getLsbD i = carryIn a b c i := carries i inside
    have low : (((s.main a b c).main a' b' c').r2Sum0 i).toNat = ((part a i).toNat + (part b i).toNat) % 2 ^ 16 := by
      rw [← Nat.add_zero ((part a i).toNat + (part b i).toNat), ← Bool.toNat_false, ← Offset.low_toNat]
      rfl
    rw [sumPart, Offset.low_toNat, carry, low, digit]
    simp
  have below := digits_below a b c
  rw [sum_parts, x2, append_toNat, append_toNat, append_toNat, sums 0 (by decide), sums 1 (by decide),
    sums 2 (by decide), sums 3 (by decide)]
  omega

end Adder

end WrCores.Eca
