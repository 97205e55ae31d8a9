import Mathlib.Data.Nat.Factorization.Basic
import Mathlib.Tactic.Ring

/-!
Blocks of a power of two of numbers that start at a multiple of their size, and the masks that find them
in a machine word. Two blocks are nested or apart. Nothing here names a particular program.
-/

namespace WrCores.PowTwo

variable {w : Nat}

/-- Ones in the places of the trailing zeros. -/
def zerosMask (x : BitVec w) : BitVec w := (x ^^^ (x - 1)) &&& ~~~x

/-- Ones in the places of the trailing ones. -/
def onesMask (x : BitVec w) : BitVec w := ((x + 1) ^^^ x) &&& x

theorem zerosMask_zero : zerosMask (0 : BitVec w) = BitVec.allOnes w := by
  simp [zerosMask, BitVec.neg_one_eq_allOnes]

/-- The bits of an even and of the next lower number, from the lowest one of the even number on. -/
theorem lowest_bits (k m i : Nat) :
    (((2 ^ (k + 1) * m + 2 ^ k).testBit i ^^ (2 ^ (k + 1) * m + (2 ^ k - 1)).testBit i) &&
      !(2 ^ (k + 1) * m + 2 ^ k).testBit i) = decide (i < k) := by
  have pos : 0 < 2 ^ k := Nat.two_pow_pos k
  have twice : 2 ^ (k + 1) = 2 ^ k + 2 ^ k := by rw [Nat.pow_succ]; omega
  rw [Nat.testBit_two_pow_mul_add m (by omega), Nat.testBit_two_pow_mul_add m (by omega),
    Nat.testBit_two_pow, Nat.testBit_two_pow_sub_one]
  by_cases low : i < k
  · have inside : i < k + 1 := by omega
    have differ : k ≠ i := by omega
    simp [low, inside, differ]
  · by_cases here : i < k + 1
    · have same : k = i := by omega
      simp [same]
    · simp [low, here]

theorem zerosMask_toNat {x : BitVec w} (some : x ≠ 0) :
    ∃ k m, x.toNat = 2 ^ k * (2 * m + 1) ∧ (zerosMask x).toNat = 2 ^ k - 1 := by
  have positive : x.toNat ≠ 0 := fun zero => some (BitVec.eq_of_toNat_eq (by simpa using zero))
  obtain ⟨k, odd, ⟨m, rfl⟩, value⟩ := Nat.exists_eq_two_pow_mul_odd positive
  refine ⟨k, m, value, ?_⟩
  have pos : 0 < 2 ^ k := Nat.two_pow_pos k
  have own : x.toNat = 2 ^ (k + 1) * m + 2 ^ k := by rw [value, Nat.pow_succ]; ring
  have wide : 0 < w := by
    rcases Nat.eq_zero_or_pos w with rfl | wide
    · exact absurd (Subsingleton.elim x 0) some
    · exact wide
  have less : (x - 1).toNat = 2 ^ (k + 1) * m + (2 ^ k - 1) := by
    have below : 1 ≤ x.toNat := Nat.one_le_iff_ne_zero.mpr positive
    have one : (1 : BitVec w).toNat = 1 := by simp [Nat.one_mod_two_pow_eq_one.mpr wide]
    rw [BitVec.toNat_sub_of_le (by rw [BitVec.le_def, one]; exact below), one, own]
    omega
  have inside : k < w := by
    by_contra far
    have := Nat.pow_le_pow_right (show 0 < 2 by decide) (Nat.le_of_not_lt far)
    have := x.isLt
    have := Nat.zero_le (2 ^ (k + 1) * m)
    omega
  apply Nat.eq_of_testBit_eq
  intro i
  rw [zerosMask, Nat.testBit_two_pow_sub_one, ← lowest_bits k m i, ← own, ← less, BitVec.testBit_toNat,
    BitVec.getLsbD_and, BitVec.getLsbD_xor, BitVec.getLsbD_not, BitVec.testBit_toNat, BitVec.testBit_toNat]
  by_cases reach : i < w
  · simp [reach]
  · simp [reach, BitVec.getLsbD_of_ge _ i (Nat.le_of_not_lt reach)]

theorem onesMask_eq (x : BitVec w) : onesMask x = zerosMask (x + 1) := by
  have back : x + 1 - 1 = x := BitVec.add_sub_cancel x 1
  rw [onesMask, zerosMask, back]
  ext i inside
  simp only [BitVec.getElem_and, BitVec.getElem_xor, BitVec.getElem_not]
  generalize (x + 1)[i] = a
  generalize x[i] = b
  revert a b
  decide

/-- A word without the bits of a mask, and those bits. -/
theorem and_not_add_and (x mask : BitVec w) : (x &&& ~~~mask) + (x &&& mask) = x := by
  have apart : (x &&& ~~~mask) &&& (x &&& mask) = 0#w := by
    ext i inside
    simp only [BitVec.getElem_and, BitVec.getElem_not, BitVec.getElem_zero]
    cases x[i] <;> cases mask[i] <;> rfl
  rw [BitVec.add_eq_or_of_and_eq_zero _ _ apart]
  ext i inside
  simp only [BitVec.getElem_and, BitVec.getElem_not, BitVec.getElem_or]
  cases x[i] <;> cases mask[i] <;> rfl

theorem and_not_onesMask (x : BitVec w) : x &&& ~~~onesMask x = x - onesMask x := by
  have split := and_not_add_and x (onesMask x)
  have own : x &&& onesMask x = onesMask x := by rw [onesMask, BitVec.and_comm, BitVec.and_assoc, BitVec.and_self]
  rw [own] at split
  nth_rewrite 3 [← split]
  rw [BitVec.add_sub_cancel]

/-- The low bits of a multiple are zero. -/
theorem and_mask_of_dvd {k : Nat} {x mask : BitVec w} (size : mask.toNat = 2 ^ k - 1) (aligned : 2 ^ k ∣ x.toNat) :
    x &&& mask = 0#w := by
  apply BitVec.eq_of_toNat_eq
  rw [BitVec.toNat_and, size, Nat.and_two_pow_sub_one_eq_mod, Nat.mod_eq_zero_of_dvd aligned]
  rfl

theorem or_mask_toNat {k : Nat} {x mask : BitVec w} (size : mask.toNat = 2 ^ k - 1) (aligned : 2 ^ k ∣ x.toNat) :
    (x ||| mask).toNat = x.toNat + (2 ^ k - 1) := by
  obtain ⟨m, value⟩ := aligned
  have pos : 0 < 2 ^ k := Nat.two_pow_pos k
  rw [BitVec.toNat_or, size, value, Nat.two_pow_add_eq_or_of_lt (by omega)]

/-- The largest block that starts with a word; zero starts one of all words. -/
structure Lowest (x : BitVec w) (k : Nat) : Prop where
  whole : 2 ^ k ∣ x.toNat
  inside : k ≤ w
  zero : x = 0 → k = w
  odd : x ≠ 0 → ∃ m, x.toNat = 2 ^ k * (2 * m + 1)

theorem zerosMask_lowest (x : BitVec w) : ∃ k, Lowest x k ∧ (zerosMask x).toNat = 2 ^ k - 1 := by
  by_cases zero : x = 0
  · refine ⟨w, ⟨?_, le_rfl, fun _ => rfl, fun some => absurd zero some⟩, ?_⟩
    · simp [zero]
    · rw [zero, zerosMask_zero, BitVec.toNat_allOnes]
  · obtain ⟨k, m, value, size⟩ := zerosMask_toNat zero
    have whole : 2 ^ k ∣ x.toNat := by rw [value]; exact Nat.dvd_mul_right _ _
    have pos : 0 < x.toNat := by rw [value]; exact Nat.mul_pos (Nat.two_pow_pos k) (by omega)
    have less : 2 ^ k < 2 ^ w := lt_of_le_of_lt (Nat.le_of_dvd pos whole) x.isLt
    have inside : k ≤ w := ((Nat.pow_lt_pow_iff_right (by decide)).mp less).le
    exact ⟨k, ⟨whole, inside, fun none => absurd none zero, fun _ => ⟨m, value⟩⟩, size⟩

namespace Lowest

variable {x : BitVec w} {k : Nat} (lowest : Lowest x k) (some : x ≠ 0)

include lowest some

theorem le {j : Nat} (divides : 2 ^ j ∣ x.toNat) : j ≤ k := by
  obtain ⟨m, value⟩ := lowest.odd some
  have odd : Nat.Coprime (2 ^ j) (2 * m + 1) := Nat.Coprime.pow_left j (by simp)
  exact (Nat.pow_dvd_pow_iff_le_right (by decide)).mp (odd.dvd_of_dvd_mul_right (value ▸ divides))

/-- Behind the block a larger one starts. -/
theorem up : 2 ^ (k + 1) ∣ x.toNat + 2 ^ k := by
  obtain ⟨m, value⟩ := lowest.odd some
  exact ⟨m + 1, by rw [value]; ring⟩

theorem down : 2 ^ (k + 1) ∣ x.toNat - 2 ^ k := by
  obtain ⟨m, value⟩ := lowest.odd some
  refine ⟨m, ?_⟩
  have split : 2 ^ k * (2 * m + 1) = 2 ^ (k + 1) * m + 2 ^ k := by ring
  omega

end Lowest

/-! ### Blocks -/

variable {a b e d j k : Nat}

/-- Of two blocks with a number in common the smaller one lies in the other. -/
theorem nested (left : 2 ^ j ∣ a) (right : 2 ^ k ∣ b) (inLeft : a ≤ e ∧ e < a + 2 ^ j)
    (inRight : b ≤ e ∧ e < b + 2 ^ k) (smaller : j ≤ k) : b ≤ a ∧ a + 2 ^ j ≤ b + 2 ^ k := by
  obtain ⟨x, rfl⟩ := left
  obtain ⟨y, rfl⟩ := right
  obtain ⟨c, size⟩ := Nat.pow_dvd_pow 2 smaller
  have pos : 0 < 2 ^ j := Nat.two_pow_pos j
  rw [size] at inRight ⊢
  have low : 2 ^ j * (c * y) < 2 ^ j * (x + 1) := by
    rw [← Nat.mul_assoc, Nat.mul_add, Nat.mul_one]
    omega
  have high : 2 ^ j * x < 2 ^ j * (c * y + c) := by
    rw [Nat.mul_add, ← Nat.mul_assoc]
    omega
  have lowStep : c * y ≤ x := Nat.le_of_lt_succ (Nat.lt_of_mul_lt_mul_left low)
  have highStep : x + 1 ≤ c * y + c := Nat.lt_of_mul_lt_mul_left high
  constructor
  · rw [Nat.mul_assoc]
    exact Nat.mul_le_mul_left _ lowStep
  · calc 2 ^ j * x + 2 ^ j = 2 ^ j * (x + 1) := by rw [Nat.mul_add, Nat.mul_one]
      _ ≤ 2 ^ j * (c * y + c) := Nat.mul_le_mul_left _ highStep
      _ = 2 ^ j * c * y + 2 ^ j * c := by rw [Nat.mul_add, Nat.mul_assoc]

/-- A run of numbers within a block from its start and within one to its end is a block. -/
theorem block_of_ends (start : 2 ^ k ∣ a) (stop : 2 ^ j ∣ a + d) (some : 0 < d) (below : d ≤ 2 ^ k)
    (above : d ≤ 2 ^ j) : ∃ i, (i = j ∨ i = k) ∧ d = 2 ^ i ∧ 2 ^ i ∣ a := by
  rcases Nat.le_total j k with less | less
  · have whole : 2 ^ j ∣ a := (Nat.pow_dvd_pow 2 less).trans start
    have size : 2 ^ j ∣ d := (Nat.dvd_add_right whole).mp stop
    exact ⟨j, .inl rfl, le_antisymm above (Nat.le_of_dvd some size), whole⟩
  · have size : 2 ^ k ∣ d := (Nat.dvd_add_right start).mp ((Nat.pow_dvd_pow 2 less).trans stop)
    exact ⟨k, .inr rfl, le_antisymm below (Nat.le_of_dvd some size), start⟩

end WrCores.PowTwo
