import Mathlib.Data.BitVec
import Mathlib.Data.List.Basic
import Mathlib.Logic.Function.Basic

/-!
A memory addressed by pointers that wrap around. `slice mem p n` lists the `n` cells
from `p` on; with fewer cells than the memory has, the cell behind the slice is not
in it, so that a write there leaves the slice alone. Nothing here names a circuit.
-/

namespace WrCores.Clocked

variable {α : Type*} {w : Nat}

def slice (mem : BitVec w → α) (p : BitVec w) : Nat → List α
  | 0 => []
  | n + 1 => mem p :: slice mem (p + 1#w) n

@[simp] theorem slice_zero (mem : BitVec w → α) (p : BitVec w) : slice mem p 0 = [] := rfl

theorem slice_succ (mem : BitVec w → α) (p : BitVec w) (n : Nat) :
    slice mem p (n + 1) = mem p :: slice mem (p + 1#w) n := rfl

@[simp] theorem slice_length (mem : BitVec w → α) (p : BitVec w) (n : Nat) :
    (slice mem p n).length = n := by
  induction n generalizing p with
  | zero => rfl
  | succ n ih => simp [slice_succ, ih]

/-- Moving a pointer by one and then by `n` moves it by `n + 1`. -/
theorem ring_succ (p : BitVec w) (n : Nat) :
    p + 1#w + BitVec.ofNat w n = p + BitVec.ofNat w (n + 1) := by
  rw [BitVec.add_assoc, Nat.add_comm n 1, BitVec.ofNat_add]

theorem slice_append (mem : BitVec w → α) (p : BitVec w) (m n : Nat) :
    slice mem p (m + n) = slice mem p m ++ slice mem (p + BitVec.ofNat w m) n := by
  induction m generalizing p with
  | zero => simp
  | succ m ih => rw [Nat.succ_add, slice_succ, slice_succ, ih, ring_succ, List.cons_append]

/-- The cell `n` steps on is another cell, as long as the ring is longer than `n`. -/
theorem ring_apart (p : BitVec w) (m n : Nat) (less : m < n) (short : n < 2 ^ w) :
    p + BitVec.ofNat w m ≠ p + BitVec.ofNat w n := by
  intro same
  have equal : BitVec.ofNat w m = BitVec.ofNat w n := by
    rwa [BitVec.add_right_inj] at same
  have values := congrArg BitVec.toNat equal
  rw [BitVec.toNat_ofNat, BitVec.toNat_ofNat, Nat.mod_eq_of_lt short,
    Nat.mod_eq_of_lt (less.trans short)] at values
  omega

theorem slice_write [DecidableEq (BitVec w)] (mem : BitVec w → α) (p a : BitVec w) (n : Nat) (d : α)
    (outside : ∀ k < n, p + BitVec.ofNat w k ≠ a) :
    slice (Function.update mem a d) p n = slice mem p n := by
  induction n generalizing p with
  | zero => rfl
  | succ n ih =>
      have here : p ≠ a := by simpa using outside 0 n.succ_pos
      rw [slice_succ, slice_succ, Function.update_of_ne here, ih]
      intro k less
      rw [ring_succ]
      exact outside (k + 1) (by omega)

end WrCores.Clocked
