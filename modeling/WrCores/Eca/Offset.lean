import Mathlib.Data.BitVec

/-!
eca_offset.vhd as eca_wr_time.vhd instantiates it: 64 bits in four parts, `g_offset` 0. The sum is made from
carries that were computed two cycles before, when the number was smaller by two.
-/

namespace WrCores.Eca

/-- `f_eca_ripple`: the sum with its carry. -/
def fEcaRipple {n : Nat} (a b : BitVec n) (c : Bool) : BitVec (n + 1) :=
  let aw := 0#1 ++ a ++ BitVec.ofBool c
  let bw := 0#1 ++ b ++ BitVec.ofBool c
  (aw + bw).extractLsb' 1 (n + 1)

theorem append_toNat {m n : Nat} (x : BitVec m) (y : BitVec n) : (x ++ y).toNat = 2 ^ n * x.toNat + y.toNat := by
  rw [BitVec.toNat_append, ← Nat.shiftLeft_add_eq_or_of_lt y.isLt, Nat.shiftLeft_eq, Nat.mul_comm]

theorem fEcaRipple_toNat {n : Nat} (a b : BitVec n) (c : Bool) :
    (fEcaRipple a b c).toNat = a.toNat + b.toNat + c.toNat := by
  have wide (x : BitVec n) : (0#1 ++ x ++ BitVec.ofBool c).toNat = 2 * x.toNat + c.toNat := by
    rw [append_toNat, append_toNat]
    cases c <;> simp
  have small := c.toNat_le
  have left := a.isLt
  have right := b.isLt
  have power : 2 ^ (1 + n + 1) = 4 * 2 ^ n := by
    rw [show 1 + n + 1 = n + 2 by omega, Nat.pow_add]
    omega
  have power' : 2 ^ (n + 1) = 2 * 2 ^ n := by rw [Nat.pow_succ]; omega
  have sum : (2 * a.toNat + c.toNat + (2 * b.toNat + c.toNat)) % (4 * 2 ^ n) =
      2 * (a.toNat + b.toNat + c.toNat) := by
    rw [Nat.mod_eq_of_lt (by omega)]
    omega
  rw [fEcaRipple, BitVec.extractLsb'_toNat, BitVec.toNat_add, wide, wide, power, power', sum,
    Nat.shiftRight_eq_div_pow, Nat.pow_one, Nat.mul_div_cancel_left _ (by decide), Nat.mod_eq_of_lt (by omega)]

/-- One of the four parts of a number. -/
def part (a : BitVec 64) (i : Nat) : BitVec 16 := a.extractLsb' (16 * i) 16

structure Offset where
  r1P : BitVec 3 := 0
  r1G : Bool := false
  r2C : BitVec 3 := 0
  r1Low : Bool := false
  r2Low : Bool := false
  deriving DecidableEq, Repr

namespace Offset

/-- The bits 4 down to 1 of the source are 3 down to 0 here. -/
def s1R (s : Offset) : BitVec 4 := fEcaRipple s.r1P 0 s.r1G

/-- Will the part propagate a carry? -/
def propagates (a : BitVec 64) (i : Nat) : Bool := (fEcaRipple (part a i) 0 true).getLsbD 16

def main (s : Offset) (a : BitVec 64) : Offset where
  r1G := (fEcaRipple (part a 0) 3 false).getLsbD 16
  r1P := BitVec.ofBool (propagates a 3) ++ BitVec.ofBool (propagates a 2) ++ BitVec.ofBool (propagates a 1)
  r2C := s.s1R.extractLsb' 0 3 ^^^ s.r1P
  r1Low := a.getLsbD 16
  r2Low := s.r1Low

/-- The part of the sum, with a carry from the one below it. -/
def sumPart (s : Offset) (a : BitVec 64) (i : Nat) : BitVec 16 :=
  (fEcaRipple (part a i) 0 (s.r2C.getLsbD (i - 1) && !(s.r2Low ^^ a.getLsbD 16))).extractLsb' 0 16

def x2 (s : Offset) (a : BitVec 64) : BitVec 64 :=
  s.sumPart a 3 ++ s.sumPart a 2 ++ s.sumPart a 1 ++ (fEcaRipple (part a 0) 1 false).extractLsb' 0 16

/-! ### What the registers know -/

theorem part_toNat (a : BitVec 64) (i : Nat) : (part a i).toNat = a.toNat / 2 ^ (16 * i) % 2 ^ 16 := by
  rw [part, BitVec.extractLsb'_toNat, Nat.shiftRight_eq_div_pow]

theorem carry_eq (a b : BitVec 16) (c : Bool) :
    (fEcaRipple a b c).getLsbD 16 = decide (2 ^ 16 ≤ a.toNat + b.toNat + c.toNat) := by
  have left := a.isLt
  have right := b.isLt
  have small := c.toNat_le
  rw [← BitVec.testBit_toNat, fEcaRipple_toNat, Nat.testBit_eq_decide_div_mod_eq, decide_eq_decide]
  omega

theorem low_toNat (a b : BitVec 16) (c : Bool) :
    ((fEcaRipple a b c).extractLsb' 0 16).toNat = (a.toNat + b.toNat + c.toNat) % 2 ^ 16 := by
  rw [BitVec.extractLsb'_toNat, fEcaRipple_toNat, Nat.shiftRight_zero]

theorem bit_eq (a : BitVec 64) : a.getLsbD 16 = decide (a.toNat / 2 ^ 16 % 2 = 1) := by
  rw [← BitVec.testBit_toNat, Nat.testBit_eq_decide_div_mod_eq]

/-- The carries into the parts 1, 2 and 3 when three is added. -/
def Carries (c : BitVec 3) (b : BitVec 64) : Prop :=
  let g := decide (2 ^ 16 ≤ b.toNat % 2 ^ 16 + 3)
  let p1 := decide (b.toNat / 2 ^ 16 % 2 ^ 16 = 2 ^ 16 - 1)
  let p2 := decide (b.toNat / 2 ^ 32 % 2 ^ 16 = 2 ^ 16 - 1)
  c.getLsbD 0 = g ∧ c.getLsbD 1 = (g && p1) ∧ c.getLsbD 2 = (g && p1 && p2)

/-- The first stage saw `b` one cycle ago. -/
structure Seen1 (s : Offset) (b : BitVec 64) : Prop where
  g : s.r1G = decide (2 ^ 16 ≤ b.toNat % 2 ^ 16 + 3)
  p1 : s.r1P.getLsbD 0 = decide (b.toNat / 2 ^ 16 % 2 ^ 16 = 2 ^ 16 - 1)
  p2 : s.r1P.getLsbD 1 = decide (b.toNat / 2 ^ 32 % 2 ^ 16 = 2 ^ 16 - 1)
  low : s.r1Low = b.getLsbD 16

/-- The second stage knows the carries of `b` of two cycles ago. -/
structure Seen2 (s : Offset) (b : BitVec 64) : Prop where
  carries : Carries s.r2C b
  low : s.r2Low = b.getLsbD 16

theorem propagates_eq (a : BitVec 64) (i : Nat) :
    propagates a i = decide (a.toNat / 2 ^ (16 * i) % 2 ^ 16 = 2 ^ 16 - 1) := by
  rw [propagates, carry_eq, part_toNat, decide_eq_decide]
  simp only [BitVec.ofNat_eq_ofNat, BitVec.toNat_ofNat, Bool.toNat_true]
  omega

theorem three_bits : ∀ x y z : Bool, (BitVec.ofBool x ++ BitVec.ofBool y ++ BitVec.ofBool z).getLsbD 0 = z ∧
    (BitVec.ofBool x ++ BitVec.ofBool y ++ BitVec.ofBool z).getLsbD 1 = y := by
  decide

theorem main_seen1 (s : Offset) (a : BitVec 64) : (s.main a).Seen1 a := by
  constructor
  · simp only [main]
    rw [carry_eq, part_toNat]
    simp
  · rw [← propagates_eq a 1]
    exact (three_bits _ _ _).1
  · rw [← propagates_eq a 2]
    exact (three_bits _ _ _).2
  · rfl

theorem ripple_carries : ∀ (p : BitVec 3) (g : Bool),
    ((fEcaRipple p 0 g).extractLsb' 0 3 ^^^ p).getLsbD 0 = g ∧
    ((fEcaRipple p 0 g).extractLsb' 0 3 ^^^ p).getLsbD 1 = (g && p.getLsbD 0) ∧
    ((fEcaRipple p 0 g).extractLsb' 0 3 ^^^ p).getLsbD 2 = (g && p.getLsbD 0 && p.getLsbD 1) := by
  decide

theorem main_seen2 (s : Offset) (a b : BitVec 64) (seen : s.Seen1 b) : (s.main a).Seen2 b := by
  obtain ⟨zero, one, two⟩ := ripple_carries s.r1P s.r1G
  constructor
  · simp only [Carries, main, s1R]
    rw [zero, one, two, seen.g, seen.p1, seen.p2]
    exact ⟨rfl, rfl, rfl⟩
  · exact seen.low

theorem x2_toNat (s : Offset) (a : BitVec 64) : (s.x2 a).toNat =
    2 ^ 48 * (s.sumPart a 3).toNat + 2 ^ 32 * (s.sumPart a 2).toNat + 2 ^ 16 * (s.sumPart a 1).toNat +
      (a.toNat % 2 ^ 16 + 1) % 2 ^ 16 := by
  rw [x2, append_toNat, append_toNat, append_toNat, low_toNat, part_toNat]
  simp
  omega

theorem sumPart_toNat (s : Offset) (a : BitVec 64) (i : Nat) : (s.sumPart a i).toNat =
    (a.toNat / 2 ^ (16 * i) % 2 ^ 16 + (s.r2C.getLsbD (i - 1) && !(s.r2Low ^^ a.getLsbD 16)).toNat) % 2 ^ 16 := by
  rw [sumPart, low_toNat, part_toNat]
  simp

/-- Adding one, part by part. -/
theorem succ_parts (m : Nat) (small : m < 2 ^ 64) (g p1 p2 : Bool) (generates : g = decide (m % 2 ^ 16 = 2 ^ 16 - 1))
    (first : p1 = decide (m / 2 ^ 16 % 2 ^ 16 = 2 ^ 16 - 1)) (second : p2 = decide (m / 2 ^ 32 % 2 ^ 16 = 2 ^ 16 - 1)) :
    2 ^ 48 * ((m / 2 ^ 48 % 2 ^ 16 + (g && p1 && p2).toNat) % 2 ^ 16) +
      2 ^ 32 * ((m / 2 ^ 32 % 2 ^ 16 + (g && p1).toNat) % 2 ^ 16) +
      2 ^ 16 * ((m / 2 ^ 16 % 2 ^ 16 + g.toNat) % 2 ^ 16) + (m % 2 ^ 16 + 1) % 2 ^ 16 = (m + 1) % 2 ^ 64 := by
  have digits : m = m % 2 ^ 16 + 2 ^ 16 * (m / 2 ^ 16 % 2 ^ 16) + 2 ^ 32 * (m / 2 ^ 32 % 2 ^ 16) +
      2 ^ 48 * (m / 2 ^ 48 % 2 ^ 16) := by omega
  have below (k : Nat) : k % 2 ^ 16 < 2 ^ 16 := Nat.mod_lt _ (by decide)
  have below0 := below m
  have below1 := below (m / 2 ^ 16)
  have below2 := below (m / 2 ^ 32)
  have below3 := below (m / 2 ^ 48)
  generalize m % 2 ^ 16 = m0 at *
  generalize m / 2 ^ 16 % 2 ^ 16 = m1 at *
  generalize m / 2 ^ 32 % 2 ^ 16 = m2 at *
  generalize m / 2 ^ 48 % 2 ^ 16 = m3 at *
  subst generates first second
  by_cases carry : m0 = 2 ^ 16 - 1
  · by_cases full : m1 = 2 ^ 16 - 1
    · by_cases full' : m2 = 2 ^ 16 - 1
      · simp only [carry, full, full', decide_true, Bool.and_self, Bool.toNat_true]
        omega
      · simp only [carry, full, full', decide_true, decide_false, Bool.and_self, Bool.and_false, Bool.toNat_true,
          Bool.toNat_false]
        omega
    · simp only [carry, full, decide_true, decide_false, Bool.and_false, Bool.false_and, Bool.toNat_true,
        Bool.toNat_false]
      omega
  · simp only [carry, decide_false, Bool.false_and, Bool.toNat_false]
    omega

/-- The number grew by two since its carries were computed, so one is added to it. -/
theorem x2_eq (s : Offset) (b : BitVec 64) (seen : s.Seen2 b) : s.x2 (b + 2) = b + 3 := by
  obtain ⟨⟨zero, one, two⟩, low⟩ := seen
  apply BitVec.eq_of_toNat_eq
  rw [x2_toNat, sumPart_toNat, sumPart_toNat, sumPart_toNat, zero, one, two, low, bit_eq, bit_eq]
  have bound := b.isLt
  have next : (b + 2).toNat = (b.toNat + 2) % 2 ^ 64 := by simp [BitVec.toNat_add]
  have last : (b + 3).toNat = ((b + 2).toNat + 1) % 2 ^ 64 := by
    rw [show b + 3 = b + 2 + 1 by bv_omega, BitVec.toNat_add]
    rfl
  rw [last]
  have small := (b + 2).isLt
  generalize (b + 2).toNat = m at *
  generalize b.toNat = n at *
  by_cases passed : 2 ^ 16 ≤ n % 2 ^ 16 + 2
  · -- the low part went round in between: the carry is in the number already
    have flipped : decide (n / 2 ^ 16 % 2 = 1) ≠ decide (m / 2 ^ 16 % 2 = 1) := by
      rw [ne_eq, decide_eq_decide]
      omega
    have quiet : (!(decide (n / 2 ^ 16 % 2 = 1) ^^ decide (m / 2 ^ 16 % 2 = 1))) = false := by
      simpa using flipped
    rw [quiet]
    simp only [Bool.and_false, Bool.toNat_false, Nat.add_zero]
    omega
  · have low : m % 2 ^ 16 = n % 2 ^ 16 + 2 ∧ m / 2 ^ 16 = n / 2 ^ 16 := by omega
    have high : m / 2 ^ 32 = n / 2 ^ 32 := by omega
    have carries := succ_parts m small _ _ _ rfl rfl rfl
    have generates : decide (2 ^ 16 ≤ n % 2 ^ 16 + 3) = decide (m % 2 ^ 16 = 2 ^ 16 - 1) := by
      rw [decide_eq_decide]
      omega
    rw [generates, ← low.2, ← high]
    simpa using carries

end Offset

end WrCores.Eca
