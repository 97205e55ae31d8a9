import Mathlib.Data.Nat.ModEq
import WrCores.Clocked.Ring

/-!
Pointers into a ring of `2 ^ k` cells that have one bit more than an address: they tell a ring that is full from one
that is empty. They are read as counts that do not wrap. Nothing here names a particular circuit.
-/

namespace WrCores.Clocked

variable {k : Nat} {α : Type*}

theorem twoPow_succ (k : Nat) : 2 ^ (k + 1) = 2 ^ k + 2 ^ k := by
  rw [Nat.pow_succ, Nat.mul_two]

theorem ofNat_next (n : Nat) : BitVec.ofNat (k + 1) n + 1#(k + 1) = BitVec.ofNat (k + 1) (n + 1) := by
  rw [BitVec.ofNat_add]

/-- Counts that are close have one code only if they are one. -/
theorem ofNat_close {m n : Nat} (less : m ≤ n) (close : n < m + 2 ^ (k + 1)) :
    BitVec.ofNat (k + 1) m = BitVec.ofNat (k + 1) n ↔ m = n := by
  refine ⟨fun same => ?_, fun same => by rw [same]⟩
  have values := congrArg BitVec.toNat same
  rw [BitVec.toNat_ofNat, BitVec.toNat_ofNat] at values
  obtain ⟨d, rfl⟩ := Nat.exists_eq_add_of_le less
  have zero : d % 2 ^ (k + 1) = 0 := by
    have cancelled : m + d ≡ m + 0 [MOD 2 ^ (k + 1)] := values.symm
    exact Nat.ModEq.add_left_cancel' m cancelled
  rw [Nat.mod_eq_of_lt (by omega)] at zero
  omega

theorem distance {m n : Nat} (less : m ≤ n) (close : n < m + 2 ^ (k + 1)) :
    (BitVec.ofNat (k + 1) n - BitVec.ofNat (k + 1) m).toNat = n - m := by
  obtain ⟨d, rfl⟩ := Nat.exists_eq_add_of_le less
  rw [BitVec.ofNat_add, BitVec.add_comm, BitVec.add_sub_cancel, BitVec.toNat_ofNat, Nat.mod_eq_of_lt (by omega)]
  omega

theorem msb_ofNat (n : Nat) : (BitVec.ofNat (k + 1) n).msb = n.testBit k := by
  rw [BitVec.msb_eq_getLsbD_last, BitVec.getLsbD_ofNat]
  simp

theorem setWidth_ofNat (n : Nat) : (BitVec.ofNat (k + 1) n).setWidth k = BitVec.ofNat k n :=
  BitVec.setWidth_ofNat_of_le (Nat.le_succ k) n

/-- Turning the upper bit goes half round. -/
theorem ofNat_half (n : Nat) :
    BitVec.ofNat (k + 1) n ^^^ BitVec.twoPow (k + 1) k = BitVec.ofNat (k + 1) (n + 2 ^ k) := by
  apply BitVec.eq_of_getLsbD_eq
  intro i inside
  rw [BitVec.getLsbD_xor, BitVec.getLsbD_ofNat, BitVec.getLsbD_ofNat, BitVec.getLsbD_twoPow, Nat.add_comm n]
  rcases Nat.lt_or_eq_of_le (Nat.le_of_lt_succ inside) with below | rfl
  · rw [Nat.testBit_two_pow_add_gt below]
    simp [below.ne']
  · rw [Nat.testBit_two_pow_add_eq]
    simp

/-- A word that is written goes behind the stored ones, if there are fewer of them than the ring has cells. -/
theorem slice_push (mem : BitVec k → α) {m n : Nat} (less : m ≤ n) (room : n < m + 2 ^ k) (d : α) :
    slice (Function.update mem (BitVec.ofNat k n) d) (BitVec.ofNat k m) (n + 1 - m) =
      slice mem (BitVec.ofNat k m) (n - m) ++ [d] := by
  obtain ⟨j, rfl⟩ := Nat.exists_eq_add_of_le less
  rw [show m + j + 1 - m = j + 1 by omega, Nat.add_sub_cancel_left, slice_append, slice_succ, slice_zero,
    BitVec.ofNat_add, Function.update_self, slice_write]
  intro i before
  exact ring_apart _ i j before (by omega)

theorem slice_pop (mem : BitVec k → α) {m n : Nat} (less : m < n) : slice mem (BitVec.ofNat k m) (n - m) =
    mem (BitVec.ofNat k m) :: slice mem (BitVec.ofNat k (m + 1)) (n - (m + 1)) := by
  rw [show n - m = n - (m + 1) + 1 by omega, slice_succ, BitVec.ofNat_add]

end WrCores.Clocked
