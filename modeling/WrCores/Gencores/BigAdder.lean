import Mathlib.Data.BitVec
import WrCores.Eca.Offset

/-!
gc_big_adder.vhd, for any number of parts of any size. The first stage adds the parts and notes which of them generate
or propagate a carry, the second knows the carries, the output adds them. `stall_i` has its default.
-/

namespace WrCores.Gencores

/-- `f_big_ripple`, with the text of `f_eca_ripple`. -/
def fBigRipple {n : Nat} (a b : BitVec n) (c : Bool) : BitVec (n + 1) := Eca.fEcaRipple a b c

variable {bits parts : Nat}

def part (a : BitVec (bits * parts)) (i : Nat) : BitVec bits := a.extractLsb' (bits * i) bits

/-- A vector of the bits `f`. -/
def vector {n : Nat} (f : Fin n → Bool) : BitVec n := BitVec.ofNat n (Nat.ofBits f)

theorem getLsbD_vector {n : Nat} (f : Fin n → Bool) {i : Nat} (inside : i < n) :
    (vector f).getLsbD i = f ⟨i, inside⟩ := by
  rw [vector, BitVec.getLsbD_ofNat, Nat.testBit_ofBits_lt _ _ inside, decide_eq_true inside, Bool.true_and]

structure BigAdder (bits parts : Nat) where
  r1Sum0 : Fin parts → BitVec bits
  r1P : BitVec parts
  r1G : BitVec parts
  r1C : Bool
  r2Sum0 : Fin parts → BitVec bits
  r2C : BitVec parts
  r2CH : Bool

namespace BigAdder

def s1R (s : BigAdder bits parts) : BitVec (parts + 1) := fBigRipple s.r1P s.r1G s.r1C

def main (s : BigAdder bits parts) (a b : BitVec (bits * parts)) (c : Bool) : BigAdder bits parts where
  r1Sum0 i := (fBigRipple (part a i) (part b i) false).extractLsb' 0 bits
  r1G := vector fun i : Fin parts => (fBigRipple (part a i) (part b i) false).getLsbD bits
  r1P := vector fun i : Fin parts => (fBigRipple (part a i) (part b i) true).getLsbD bits
  r1C := c
  r2Sum0 := s.r1Sum0
  r2C := s.s1R.extractLsb' 0 parts ^^^ (s.r1P ^^^ s.r1G)
  r2CH := s.s1R.getLsbD parts

def sumPart (s : BigAdder bits parts) (i : Fin parts) : BitVec bits :=
  (fBigRipple (s.r2Sum0 i) 0 (s.r2C.getLsbD i)).extractLsb' 0 bits

def x2 (s : BigAdder bits parts) : BitVec (bits * parts) :=
  vector fun j => (s.sumPart ⟨j / bits, Nat.div_lt_of_lt_mul j.isLt⟩).getLsbD (j % bits)

/-- The carry into part `i` of the sum. -/
def carryIn (a b : BitVec (bits * parts)) (c : Bool) (i : Nat) : Bool := BitVec.carry (bits * i) a b c

theorem ripple_toNat {n : Nat} (a b : BitVec n) (c : Bool) :
    (fBigRipple a b c).toNat = a.toNat + b.toNat + c.toNat :=
  Eca.fEcaRipple_toNat a b c

theorem carry_out (a b : BitVec bits) (c : Bool) :
    (fBigRipple a b c).getLsbD bits = decide (2 ^ bits ≤ a.toNat + b.toNat + c.toNat) := by
  have left := a.isLt
  have right := b.isLt
  have small := c.toNat_le
  rw [← BitVec.testBit_toNat, ripple_toNat, Nat.testBit_eq_decide_div_mod_eq, decide_eq_decide]
  have most : (a.toNat + b.toNat + c.toNat) / 2 ^ bits < 2 := Nat.div_lt_of_lt_mul (by omega)
  have one : 1 ≤ (a.toNat + b.toNat + c.toNat) / 2 ^ bits ↔ 1 * 2 ^ bits ≤ a.toNat + b.toNat + c.toNat :=
    Nat.le_div_iff_mul_le (Nat.two_pow_pos bits)
  generalize (a.toNat + b.toNat + c.toNat) / 2 ^ bits = q at *
  omega

theorem sum_low (a b : BitVec bits) (c : Bool) :
    ((fBigRipple a b c).extractLsb' 0 bits).toNat = (a.toNat + b.toNat + c.toNat) % 2 ^ bits := by
  rw [BitVec.extractLsb'_toNat, ripple_toNat, Nat.shiftRight_zero]

theorem part_toNat (a : BitVec (bits * parts)) (i : Nat) :
    (part a i).toNat = a.toNat / 2 ^ (bits * i) % 2 ^ bits := by
  rw [part, BitVec.extractLsb'_toNat, Nat.shiftRight_eq_div_pow]

/-- What the two numbers have from the place `M` on, with the carry from below it. -/
theorem sum_div (x y c M : Nat) (positive : 0 < M) : (x + y + c) / M = x / M + y / M + (x % M + y % M + c) / M := by
  have split : x + y + c = (x % M + y % M + c) + M * (x / M + y / M) := by
    have left := Nat.mod_add_div x M
    have right := Nat.mod_add_div y M
    rw [Nat.mul_add]
    omega
  rw [split, Nat.add_mul_div_left _ _ positive, Nat.add_comm]

theorem carry_div (a b : BitVec (bits * parts)) (c : Bool) (i : Nat) :
    (a.toNat % 2 ^ (bits * i) + b.toNat % 2 ^ (bits * i) + c.toNat) / 2 ^ (bits * i) = (carryIn a b c i).toNat := by
  have positive := Nat.two_pow_pos (bits * i)
  have left := Nat.mod_lt a.toNat positive
  have right := Nat.mod_lt b.toNat positive
  have small := c.toNat_le
  rw [carryIn, BitVec.carry]
  by_cases carry : a.toNat % 2 ^ (bits * i) + b.toNat % 2 ^ (bits * i) + c.toNat ≥ 2 ^ (bits * i)
  · rw [decide_eq_true carry, Nat.div_eq_iff positive]
    simp only [Bool.toNat_true]
    omega
  · rw [decide_eq_false carry]
    exact Nat.div_eq_of_lt (by omega)

/-- A part of the sum. -/
theorem sum_part (a b : BitVec (bits * parts)) (c : Bool) (i : Nat) :
    (a.toNat + b.toNat + c.toNat) / 2 ^ (bits * i) % 2 ^ bits =
      ((part a i).toNat + (part b i).toNat + (carryIn a b c i).toNat) % 2 ^ bits := by
  rw [sum_div _ _ _ _ (Nat.two_pow_pos _), carry_div, part_toNat, part_toNat]
  simp [Nat.add_mod]

theorem carryIn_succ (a b : BitVec (bits * parts)) (c : Bool) (i : Nat) : carryIn a b c (i + 1) =
    decide (2 ^ bits ≤ (part a i).toNat + (part b i).toNat + (carryIn a b c i).toNat) := by
  have positive := Nat.two_pow_pos (bits * i)
  have slice (x : Nat) : x % 2 ^ (bits * (i + 1)) = x % 2 ^ (bits * i) + 2 ^ (bits * i) *
    (x / 2 ^ (bits * i) % 2 ^ bits) := by
    rw [Nat.mul_succ, Nat.pow_add, Nat.mod_mul]
  have whole : a.toNat % 2 ^ (bits * (i + 1)) + b.toNat % 2 ^ (bits * (i + 1)) + c.toNat =
      (a.toNat % 2 ^ (bits * i) + b.toNat % 2 ^ (bits * i) + c.toNat) +
        2 ^ (bits * i) * ((part a i).toNat + (part b i).toNat) := by
    rw [slice, slice, part_toNat, part_toNat, Nat.mul_add]
    omega
  rw [carryIn, BitVec.carry, decide_eq_decide, whole, ge_iff_le, Nat.mul_succ, Nat.pow_add, Nat.mul_comm (2 ^ _)
    (2 ^ _),
    ← Nat.le_div_iff_mul_le positive, Nat.add_mul_div_left _ _ positive, carry_div, Nat.add_comm]

/-- The bits of a ripple are those of its operands and the carries. -/
theorem ripple_xor {n : Nat} (p g : BitVec n) (c : Bool) {i : Nat} (inside : i < n) :
    ((fBigRipple p g c).extractLsb' 0 n ^^^ (p ^^^ g)).getLsbD i =
      BitVec.carry i (p.setWidth (n + 1)) (g.setWidth (n + 1)) c := by
  have sum : fBigRipple p g c = p.setWidth (n + 1) + g.setWidth (n + 1) + BitVec.setWidth (n + 1)
    (BitVec.ofBool c) := by
    apply BitVec.eq_of_toNat_eq
    have power : 2 ^ (n + 1) = 2 * 2 ^ n := by rw [Nat.pow_succ]; omega
    have left := p.isLt
    have right := g.isLt
    have small := c.toNat_le
    simp only [ripple_toNat, BitVec.toNat_add, BitVec.toNat_setWidth, BitVec.toNat_ofBool, power, Nat.mod_add_mod,
      Nat.add_mod_mod]
    exact (Nat.mod_eq_of_lt (by omega)).symm
  rw [BitVec.getLsbD_xor, BitVec.getLsbD_extractLsb', BitVec.getLsbD_xor, sum, Nat.zero_add,
    BitVec.getLsbD_add_add_bool (by omega)]
  simp only [inside, decide_true, Bool.true_and, BitVec.getLsbD_setWidth, show i < n + 1 by omega]
  cases p.getLsbD i <;> cases g.getLsbD i <;> simp

/-- The ripple of the second stage carries what the sum does, up to the carry out of the last part. -/
theorem carry_chain (s : BigAdder bits parts) (a b : BitVec (bits * parts)) (c : Bool) {i : Nat} (inside : i ≤ parts) :
    BitVec.carry i ((s.main a b c).r1P.setWidth (parts + 1)) ((s.main a b c).r1G.setWidth (parts + 1)) c =
      carryIn a b c i := by
  induction i with
  | zero => simp [carryIn]
  | succ i ih =>
      have below : i < parts := by omega
      have propagates : (s.main a b c).r1P.getLsbD i = decide
        (2 ^ bits ≤ (part a i).toNat + (part b i).toNat + 1) := by
        rw [main, getLsbD_vector _ below, carry_out, Bool.toNat_true]
      have generates : (s.main a b c).r1G.getLsbD i = decide (2 ^ bits ≤ (part a i).toNat + (part b i).toNat) := by
        rw [main, getLsbD_vector _ below, carry_out, Bool.toNat_false, Nat.add_zero]
      rw [BitVec.carry_succ, ih below.le, BitVec.getLsbD_setWidth, BitVec.getLsbD_setWidth, propagates, generates,
        carryIn_succ, decide_eq_true (show i < parts + 1 by omega), Bool.true_and, Bool.true_and]
      cases carryIn a b c i with
      | false =>
          rw [Bool.atLeastTwo_false_right, ← Bool.decide_and, decide_eq_decide, Bool.toNat_false]
          omega
      | true =>
          rw [Bool.atLeastTwo_true_right, ← Bool.decide_or, decide_eq_decide, Bool.toNat_true]
          omega

/-- The carries that the second stage finds are those of the sum. -/
theorem main_carries (s : BigAdder bits parts) (a b : BitVec (bits * parts)) (c : Bool) {i : Nat}
    (inside : i < parts) :
    ((s.main a b c).s1R.extractLsb' 0 parts ^^^ ((s.main a b c).r1P ^^^ (s.main a b c).r1G)).getLsbD i =
      carryIn a b c i := by
  rw [s1R, ripple_xor _ _ _ inside]
  exact s.carry_chain a b c inside.le

/-- The carry out of the last part is the one out of the sum. -/
theorem main_carry_out (s : BigAdder bits parts) (a b : BitVec (bits * parts)) (c : Bool) :
    (s.main a b c).s1R.getLsbD parts = decide (2 ^ (bits * parts) ≤ a.toNat + b.toNat + c.toNat) := by
  have last := s.carry_chain a b c le_rfl
  have small (v : BitVec parts) : (v.setWidth (parts + 1)).toNat % 2 ^ parts = v.toNat := by
    rw [BitVec.toNat_setWidth, Nat.mod_mod_of_dvd _ (Nat.pow_dvd_pow 2 (Nat.le_succ parts)), Nat.mod_eq_of_lt v.isLt]
  rw [carryIn, BitVec.carry, BitVec.carry, small, small, Nat.mod_eq_of_lt a.isLt, Nat.mod_eq_of_lt b.isLt] at last
  rw [s1R, carry_out]
  exact last

/-- The sum comes out two edges behind its operands, whatever follows them. -/
theorem main_x2 (s : BigAdder bits parts) (a b a' b' : BitVec (bits * parts)) (c c' : Bool) :
    ((s.main a b c).main a' b' c').x2 = a + b + BitVec.setWidth _ (BitVec.ofBool c) := by
  have sums (i : Fin parts) : (((s.main a b c).main a' b' c').sumPart i).toNat =
      (a.toNat + b.toNat + c.toNat) / 2 ^ (bits * i) % 2 ^ bits := by
    have carry : ((s.main a b c).main a' b' c').r2C.getLsbD i = carryIn a b c i := s.main_carries a b c i.isLt
    have low : (((s.main a b c).main a' b' c').r2Sum0 i).toNat =
        ((part a i).toNat + (part b i).toNat) % 2 ^ bits := by
      rw [← Nat.add_zero ((part a i).toNat + (part b i).toNat), ← Bool.toNat_false, ← sum_low]
      rfl
    rw [sumPart, sum_low, carry, low, sum_part]
    simp
  refine BitVec.eq_of_getLsbD_eq fun j inside => ?_
  have size : 0 < bits := Nat.pos_of_ne_zero fun none => by simp [none] at inside
  have sum : (a + b + BitVec.setWidth _ (BitVec.ofBool c)).toNat =
      (a.toNat + b.toNat + c.toNat) % 2 ^ (bits * parts) := by
    simp only [BitVec.toNat_add, BitVec.toNat_setWidth, BitVec.toNat_ofBool, Nat.mod_add_mod, Nat.add_mod_mod]
  have place : (j % bits) + bits * (j / bits) = j := Nat.mod_add_div j bits
  rw [x2, getLsbD_vector _ inside, ← BitVec.testBit_toNat, sums, Nat.testBit_mod_two_pow,
    decide_eq_true (Nat.mod_lt j size), Bool.true_and, Nat.testBit_div_two_pow, ← BitVec.testBit_toNat, sum,
    Nat.testBit_mod_two_pow, decide_eq_true inside, Bool.true_and]
  exact congrArg _ place

end BigAdder

end WrCores.Gencores
