import Mathlib.Data.BitVec
import Mathlib.Logic.Function.Iterate

/-!
Words of a fixed width that remember whether an operation on the way to them went out of range. The operations are
those of the machine: a sum, a product and a shift to the left are cut off, and raise the mark when there was something
to cut. `Holds` says that a word is a number and that nothing was cut. Nothing here names a particular program.
-/

namespace WrCores.Words

structure Traced (w : Nat) where
  bits : BitVec w
  wrapped : Bool := false
  deriving DecidableEq, Repr

namespace Traced

variable {w n a b k : Nat} {x y : Traced w}

instance : OfNat (Traced w) n := ⟨{ bits := BitVec.ofNat w n }⟩

instance : Add (Traced w) where
  add x y := ⟨x.bits + y.bits, x.wrapped || y.wrapped || decide (2 ^ w ≤ x.bits.toNat + y.bits.toNat)⟩

instance : Mul (Traced w) where
  mul x y := ⟨x.bits * y.bits, x.wrapped || y.wrapped || decide (2 ^ w ≤ x.bits.toNat * y.bits.toNat)⟩

instance : Div (Traced w) where
  div x y := ⟨x.bits / y.bits, x.wrapped || y.wrapped⟩

instance : Mod (Traced w) where
  mod x y := ⟨x.bits % y.bits, x.wrapped || y.wrapped⟩

instance : AndOp (Traced w) where
  and x y := ⟨x.bits &&& y.bits, x.wrapped || y.wrapped⟩

instance : HShiftLeft (Traced w) Nat (Traced w) where
  hShiftLeft x k := ⟨x.bits <<< k, x.wrapped || decide (2 ^ w ≤ x.bits.toNat * 2 ^ k)⟩

instance : HShiftRight (Traced w) Nat (Traced w) where
  hShiftRight x k := ⟨x.bits >>> k, x.wrapped⟩

structure Holds (x : Traced w) (a : Nat) : Prop where
  kept : x.wrapped = false
  value : x.bits.toNat = a

theorem Holds.lt (held : x.Holds a) : a < 2 ^ w := held.value ▸ x.bits.isLt

theorem holds_word (v : BitVec w) : Holds ⟨v, false⟩ v.toNat := ⟨rfl, rfl⟩

theorem holds_ofNat (fits : n < 2 ^ w) : Holds (OfNat.ofNat n : Traced w) n := ⟨rfl, Nat.mod_eq_of_lt fits⟩

theorem Holds.add (first : x.Holds a) (second : y.Holds b) (fits : a + b < 2 ^ w) : (x + y).Holds (a + b) := by
  constructor
  · change (x.wrapped || y.wrapped || decide (2 ^ w ≤ x.bits.toNat + y.bits.toNat)) = false
    simp [first.kept, second.kept, first.value, second.value, fits]
  · change (x.bits + y.bits).toNat = a + b
    rw [BitVec.toNat_add, first.value, second.value, Nat.mod_eq_of_lt fits]

theorem Holds.mul (first : x.Holds a) (second : y.Holds b) (fits : a * b < 2 ^ w) : (x * y).Holds (a * b) := by
  constructor
  · change (x.wrapped || y.wrapped || decide (2 ^ w ≤ x.bits.toNat * y.bits.toNat)) = false
    simp [first.kept, second.kept, first.value, second.value, fits]
  · change (x.bits * y.bits).toNat = a * b
    rw [BitVec.toNat_mul, first.value, second.value, Nat.mod_eq_of_lt fits]

theorem Holds.div (first : x.Holds a) (second : y.Holds b) : (x / y).Holds (a / b) := by
  constructor
  · change (x.wrapped || y.wrapped) = false
    simp [first.kept, second.kept]
  · change (x.bits / y.bits).toNat = a / b
    rw [BitVec.toNat_udiv, first.value, second.value]

theorem Holds.mod (first : x.Holds a) (second : y.Holds b) : (x % y).Holds (a % b) := by
  constructor
  · change (x.wrapped || y.wrapped) = false
    simp [first.kept, second.kept]
  · change (x.bits % y.bits).toNat = a % b
    rw [BitVec.toNat_umod, first.value, second.value]

theorem Holds.and (first : x.Holds a) (second : y.Holds b) : (x &&& y).Holds (a &&& b) := by
  constructor
  · change (x.wrapped || y.wrapped) = false
    simp [first.kept, second.kept]
  · change (x.bits &&& y.bits).toNat = a &&& b
    rw [BitVec.toNat_and, first.value, second.value]

theorem Holds.shiftLeft (held : x.Holds a) (fits : a * 2 ^ k < 2 ^ w) : (x <<< k).Holds (a * 2 ^ k) := by
  constructor
  · change (x.wrapped || decide (2 ^ w ≤ x.bits.toNat * 2 ^ k)) = false
    simp [held.kept, held.value, fits]
  · change (x.bits <<< k).toNat = a * 2 ^ k
    rw [BitVec.toNat_shiftLeft, held.value, Nat.shiftLeft_eq, Nat.mod_eq_of_lt fits]

theorem Holds.shiftRight (held : x.Holds a) : (x >>> k).Holds (a / 2 ^ k) :=
  ⟨held.kept, by change (x.bits >>> k).toNat = _; rw [BitVec.toNat_ushiftRight, held.value, Nat.shiftRight_eq_div_pow]⟩

end Traced

/-- A number in two words that hold `half` of its bits and those above. -/
structure Halves (w : Nat) where
  high : Traced w
  low : Traced w

namespace Halves

variable {w half n d : Nat}

structure Holds (h : Halves w) (half n : Nat) : Prop where
  high : h.high.Holds (n / 2 ^ half)
  low : h.low.Holds (n % 2 ^ half)

/-- One step of a long division: the rest of the upper word goes in front of the lower one. -/
def divide (half : Nat) (h : Halves w) (d : Traced w) : Halves w where
  high := h.high / d
  low := (h.low + (h.high % d) <<< half) / d

theorem Holds.divide {h : Halves w} {factor : Traced w} (held : h.Holds half n) (divisor : factor.Holds d)
    (positive : 0 < d) (fits : d * 2 ^ half ≤ 2 ^ w) : (h.divide half factor).Holds half (n / d) := by
  have rest : n % 2 ^ half + n / 2 ^ half % d * 2 ^ half = n % (2 ^ half * d) := by
    rw [Nat.mod_mul, Nat.mul_comm (2 ^ half)]
  have small : n % (2 ^ half * d) < 2 ^ w :=
    (Nat.mod_lt _ (Nat.mul_pos (Nat.two_pow_pos half) positive)).trans_le (by rwa [Nat.mul_comm])
  have shifted : ((h.high % factor) <<< half).Holds (n / 2 ^ half % d * 2 ^ half) :=
    (held.high.mod divisor).shiftLeft (by omega)
  have joined := held.low.add shifted (by omega)
  constructor
  · have upper := held.high.div divisor
    rwa [Nat.div_div_eq_div_mul, Nat.mul_comm, ← Nat.div_div_eq_div_mul] at upper
  · have lower := joined.div divisor
    rwa [rest, Nat.mod_mul_left_div_self] at lower

theorem Holds.divides {h : Halves w} {factor : Traced w} (held : h.Holds half n) (divisor : factor.Holds d)
    (positive : 0 < d) (fits : d * 2 ^ half ≤ 2 ^ w) (times : Nat) :
    ((fun h => Halves.divide half h factor)^[times] h).Holds half (n / d ^ times) := by
  induction times with
  | zero => simpa using held
  | succ times ih =>
      rw [Function.iterate_succ_apply', pow_succ, ← Nat.div_div_eq_div_mul]
      exact ih.divide divisor positive fits

end Halves

end WrCores.Words
