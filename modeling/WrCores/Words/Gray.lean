import Mathlib.Data.BitVec
import Mathlib.Data.Nat.Bitwise
import Mathlib.Algebra.Ring.Parity
import Mathlib.Tactic.Push

/-!
The reflected Gray code of words of any width. Coding and decoding are built from one linear step, `shiftXor`: coding
is the step by one place, decoding takes the steps by 1, 2, 4, ... places until the word is used up. `mixture` takes
each bit from one of two words, as a register does that is loaded while its input changes.
-/

namespace WrCores.Words.Gray

variable {w : Nat}

def shiftXor (step : Nat) (x : BitVec w) : BitVec w := x ^^^ x >>> step

def encode (x : BitVec w) : BitVec w := shiftXor 1 x

def decode (x : BitVec w) (step : Nat) (positive : 0 < step) : BitVec w :=
  if w ≤ step then x else decode (shiftXor step x) (step + step) (Nat.add_pos_left positive step)
termination_by w - step

/-- The bits of `new` where `chosen` has a one, those of `old` elsewhere. -/
def mixture (chosen old new : BitVec w) : BitVec w := (old &&& ~~~chosen) ||| (new &&& chosen)

/-- A word whose last `k` bits are one. -/
def ones (w k : Nat) : BitVec w := BitVec.ofNat w (2 ^ k - 1)

variable (x y : BitVec w) (step : Nat)

/-! ### Decoding -/

theorem getLsbD_shiftXor (i : Nat) : (shiftXor step x).getLsbD i = (x.getLsbD i ^^ x.getLsbD (step + i)) := by
  rw [shiftXor, BitVec.getLsbD_xor, BitVec.getLsbD_ushiftRight]

theorem shiftXor_far (far : w ≤ step) : shiftXor step x = x := by
  apply BitVec.eq_of_getLsbD_eq
  intro i _
  rw [getLsbD_shiftXor, BitVec.getLsbD_of_ge x (step + i) (by omega), Bool.xor_false]

theorem shiftXor_twice : shiftXor step (shiftXor step x) = shiftXor (step + step) x := by
  apply BitVec.eq_of_getLsbD_eq
  intro i _
  simp only [getLsbD_shiftXor, Nat.add_assoc]
  cases x.getLsbD i <;> cases x.getLsbD (step + i) <;> cases x.getLsbD (step + (step + i)) <;> rfl

theorem shiftXor_comm (other : Nat) : shiftXor step (shiftXor other x) = shiftXor other (shiftXor step x) := by
  apply BitVec.eq_of_getLsbD_eq
  intro i _
  simp only [getLsbD_shiftXor]
  rw [Nat.add_left_comm other step i]
  cases x.getLsbD i <;> cases x.getLsbD (step + i) <;> cases x.getLsbD (other + i) <;> simp

theorem shiftXor_xor : shiftXor step (x ^^^ y) = shiftXor step x ^^^ shiftXor step y := by
  apply BitVec.eq_of_getLsbD_eq
  intro i _
  simp only [getLsbD_shiftXor, BitVec.getLsbD_xor]
  cases x.getLsbD i <;> cases x.getLsbD (step + i) <;> cases y.getLsbD i <;> cases y.getLsbD (step + i) <;> rfl

theorem decode_shiftXor {step : Nat} (x : BitVec w) (positive : 0 < step) :
    decode (shiftXor step x) step positive = x := by
  rw [decode]
  split
  · exact shiftXor_far x step ‹_›
  · rw [shiftXor_twice]
    exact decode_shiftXor x (Nat.add_pos_left positive step)
termination_by w - step

theorem shiftXor_decode {step : Nat} (x : BitVec w) (positive : 0 < step) (other : Nat) :
    shiftXor other (decode x step positive) = decode (shiftXor other x) step positive := by
  rw [decode, decode.eq_def (shiftXor other x)]
  split
  · rfl
  · rw [shiftXor_comm x step other]
    exact shiftXor_decode (shiftXor step x) (Nat.add_pos_left positive step) other
termination_by w - step

theorem decode_encode : decode (encode x) 1 Nat.one_pos = x := decode_shiftXor x Nat.one_pos

theorem encode_decode : encode (decode x 1 Nat.one_pos) = x := by
  rw [encode, shiftXor_decode]
  exact decode_shiftXor x Nat.one_pos

theorem encode_xor : encode (x ^^^ y) = encode x ^^^ encode y := shiftXor_xor x y 1

theorem encode_zero : encode (0 : BitVec w) = 0 := by simp [encode, shiftXor]

variable {x y}

theorem encode_inj (same : encode x = encode y) : x = y := by
  rw [← decode_encode x, same, decode_encode]

variable (x y)

theorem decode_xor : decode (x ^^^ y) 1 Nat.one_pos = decode x 1 Nat.one_pos ^^^ decode y 1 Nat.one_pos := by
  apply encode_inj
  rw [encode_xor, encode_decode, encode_decode, encode_decode]

/-! ### Mixtures -/

theorem mixture_eq (chosen : BitVec w) : mixture chosen x y = x ^^^ (x ^^^ y) &&& chosen := by
  apply BitVec.eq_of_getLsbD_eq
  intro i inside
  simp only [mixture, BitVec.getLsbD_or, BitVec.getLsbD_and, BitVec.getLsbD_not, BitVec.getLsbD_xor, inside,
    decide_true, Bool.true_and]
  cases chosen.getLsbD i <;> cases x.getLsbD i <;> cases y.getLsbD i <;> rfl

theorem mixture_zero : mixture 0 x y = x := by
  rw [mixture_eq]
  exact (congrArg (x ^^^ ·) BitVec.and_zero).trans BitVec.xor_zero

theorem mixture_self (chosen : BitVec w) : mixture chosen x x = x := by
  rw [mixture_eq, BitVec.xor_self, BitVec.zero_and]
  exact BitVec.xor_zero

/-- What a mixture of two codes decodes to depends on the bits in which the numbers differ only. -/
theorem decode_mixture (chosen : BitVec w) : decode (mixture chosen (encode x) (encode y)) 1 Nat.one_pos =
    x ^^^ decode (encode (x ^^^ y) &&& chosen) 1 Nat.one_pos := by
  rw [mixture_eq, decode_xor, decode_encode, encode_xor]

theorem getLsbD_ones (k i : Nat) : (ones w k).getLsbD i = (decide (i < w) && decide (i < k)) := by
  rw [ones, BitVec.getLsbD_ofNat, Nat.testBit_two_pow_sub_one]

theorem encode_ones {k : Nat} (inside : k < w) : encode (ones w (k + 1)) = BitVec.twoPow w k := by
  apply BitVec.eq_of_getLsbD_eq
  intro i small
  rw [encode, getLsbD_shiftXor, getLsbD_ones, getLsbD_ones, BitVec.getLsbD_twoPow]
  rcases lt_trichotomy i k with before | rfl | behind
  · simp [small, show i < k + 1 by omega, show 1 + i < w by omega, show 1 + i < k + 1 by omega, before.ne']
  · simp [small, Nat.add_comm 1 i]
  · simp [show ¬ i < k + 1 by omega, show ¬ 1 + i < k + 1 by omega, behind.ne]

theorem ones_zero : ones w 0 = 0 := rfl

theorem ones_large {k : Nat} (large : w ≤ k) : ones w k = ones w w := by
  apply BitVec.eq_of_getLsbD_eq
  intro i small
  rw [getLsbD_ones, getLsbD_ones]
  simp [small, small.trans_le large]

theorem toNat_ones (k : Nat) : (ones w k).toNat = 2 ^ min k w - 1 := by
  rcases Nat.le_total k w with inside | large
  · rw [min_eq_left inside, ones, BitVec.toNat_ofNat]
    have positive := Nat.two_pow_pos k
    have fits := Nat.pow_le_pow_right Nat.two_pos inside
    exact Nat.mod_eq_of_lt (by omega)
  · rw [min_eq_right large, ones_large large, ones, BitVec.toNat_ofNat]
    have positive := Nat.two_pow_pos w
    exact Nat.mod_eq_of_lt (by omega)

/-- One bit, or none, in which the codes differ. -/
theorem and_encode_ones (k : Nat) (chosen : BitVec w) :
    encode (ones w k) &&& chosen = 0 ∨ encode (ones w k) &&& chosen = encode (ones w k) := by
  have single {j : Nat} (inside : j < w) :
      BitVec.twoPow w j &&& chosen = 0 ∨ BitVec.twoPow w j &&& chosen = BitVec.twoPow w j := by
    rw [BitVec.and_comm, BitVec.and_twoPow]
    split
    · exact .inr rfl
    · exact .inl rfl
  rcases Nat.eq_zero_or_pos k with rfl | some
  · left
    rw [ones_zero, encode_zero]
    exact BitVec.zero_and
  · rcases Nat.lt_or_ge (k - 1) w with inside | large
    · rw [← Nat.sub_add_cancel some, encode_ones inside]
      exact single inside
    · rw [ones_large (by omega : w ≤ k)]
      rcases Nat.eq_zero_or_pos w with rfl | wide
      · exact .inl (Subsingleton.elim _ _)
      · have last := encode_ones (Nat.sub_lt wide Nat.one_pos)
        rw [Nat.sub_add_cancel wide] at last
        rw [last]
        exact single (Nat.sub_lt wide Nat.one_pos)

/-- Two numbers can be told from every mixture of their codes if and only if they differ in a block of last bits. -/
theorem decode_mixture_iff :
    (∀ chosen, decode (mixture chosen (encode x) (encode y)) 1 Nat.one_pos = x ∨
      decode (mixture chosen (encode x) (encode y)) 1 Nat.one_pos = y) ↔ ∃ k, x ^^^ y = ones w k := by
  have toNew : x ^^^ (x ^^^ y) = y := by rw [← BitVec.xor_assoc, BitVec.xor_self, BitVec.zero_xor]
  constructor
  · intro told
    by_cases same : encode (x ^^^ y) = 0
    · refine ⟨0, encode_inj ?_⟩
      rw [same, ones_zero, encode_zero]
    · obtain ⟨i, inside, set⟩ : ∃ i, i < w ∧ (encode (x ^^^ y)).getLsbD i = true := by
        by_contra none
        push Not at none
        refine same (BitVec.eq_of_getLsbD_eq fun i inside => ?_)
        rw [Bool.eq_false_iff.2 (none i inside)]
        simp
      have one : encode (x ^^^ y) &&& BitVec.twoPow w i = BitVec.twoPow w i := by
        rw [BitVec.and_twoPow, if_pos set]
      refine ⟨i + 1, encode_inj ?_⟩
      rw [encode_ones inside]
      have picked := told (BitVec.twoPow w i)
      rw [decode_mixture, one] at picked
      rcases picked with old | new
      · have none : decode (BitVec.twoPow w i) 1 Nat.one_pos = 0 := by
          have moved := congrArg (x ^^^ ·) old
          simpa [← BitVec.xor_assoc] using moved
        have code := encode_decode (BitVec.twoPow w i)
        rw [none] at code
        have bit := congrArg (fun v => BitVec.getLsbD v i) code
        simp [encode, shiftXor, inside] at bit
      · have all : decode (BitVec.twoPow w i) 1 Nat.one_pos = x ^^^ y := by
          rw [← new, ← BitVec.xor_assoc, BitVec.xor_self, BitVec.zero_xor]
        rw [← all, encode_decode]
  · rintro ⟨k, block⟩ chosen
    rw [decode_mixture]
    rcases and_encode_ones k chosen with none | all
    · left
      rw [block, none]
      have zero := decode_encode (0 : BitVec w)
      rw [encode_zero] at zero
      rw [zero]
      exact BitVec.xor_zero
    · right
      rw [block, all, decode_encode, ← block, toNew]

/-! ### Counting up -/

theorem xor_succ (n : Nat) : ∃ k, n ^^^ (n + 1) = 2 ^ k - 1 := by
  induction n using Nat.strong_induction_on with
  | _ n ih =>
      rcases Nat.even_or_odd' n with ⟨m, rfl | rfl⟩
      · refine ⟨1, ?_⟩
        have low : (2 * m ^^^ (2 * m + 1)) % 2 = 1 := by rw [Nat.xor_mod_two_eq]; omega
        have high : (2 * m ^^^ (2 * m + 1)) / 2 = 0 := by
          rw [Nat.xor_div_two, show (2 * m + 1) / 2 = m by omega, show 2 * m / 2 = m by omega, Nat.xor_self]
        omega
      · obtain ⟨k, block⟩ := ih m (by omega)
        refine ⟨k + 1, ?_⟩
        have low : ((2 * m + 1) ^^^ (2 * m + 1 + 1)) % 2 = 1 := by rw [Nat.xor_mod_two_eq]; omega
        have high : ((2 * m + 1) ^^^ (2 * m + 1 + 1)) / 2 = 2 ^ k - 1 := by
          rw [Nat.xor_div_two, show (2 * m + 1) / 2 = m by omega, show (2 * m + 1 + 1) / 2 = m + 1 by omega, block]
        have positive := Nat.two_pow_pos k
        rw [Nat.pow_succ]
        omega

theorem xor_add_one : ∃ k, x ^^^ (x + 1) = ones w k := by
  obtain ⟨k, block⟩ := xor_succ x.toNat
  refine ⟨k, ?_⟩
  rw [ones, ← block, BitVec.ofNat_xor, BitVec.ofNat_add, BitVec.ofNat_toNat, BitVec.setWidth_eq]
  rfl

/-! ### Counting up by a power of two -/

theorem encode_ushiftRight (k : Nat) : encode x >>> k = encode (x >>> k) := by
  rw [encode, shiftXor, BitVec.ushiftRight_xor_distrib, encode, shiftXor, ← BitVec.shiftRight_add,
    ← BitVec.shiftRight_add, Nat.add_comm]

theorem decode_ushiftRight (k : Nat) : decode x 1 Nat.one_pos >>> k = decode (x >>> k) 1 Nat.one_pos := by
  apply encode_inj
  rw [← encode_ushiftRight, encode_decode, encode_decode]

/-- The upper bits of a mixture come from the upper bits of the numbers alone. -/
theorem decode_mixture_ushiftRight (k : Nat) (chosen : BitVec w) :
    decode (mixture chosen (encode x) (encode y)) 1 Nat.one_pos >>> k =
      decode (mixture (chosen >>> k) (encode (x >>> k)) (encode (y >>> k))) 1 Nat.one_pos := by
  rw [decode_ushiftRight, mixture_eq, mixture_eq, BitVec.ushiftRight_xor_distrib, BitVec.ushiftRight_and_distrib,
    BitVec.ushiftRight_xor_distrib, encode_ushiftRight, encode_ushiftRight]

theorem xor_succ_mod {q m : Nat} (small : q < 2 ^ m) : ∃ j, q ^^^ (q + 1) % 2 ^ m = 2 ^ min j m - 1 := by
  obtain ⟨j, block⟩ := xor_succ q
  refine ⟨j, ?_⟩
  have whole : q ^^^ (q + 1) % 2 ^ m = (q ^^^ (q + 1)) % 2 ^ m := by
    rw [Nat.xor_mod_two_pow, Nat.mod_eq_of_lt small]
  rw [whole, block, ← toNat_ones (w := m), ones, BitVec.toNat_ofNat]

/-- Above bit `k` a step by `2 ^ k` is a step by one. -/
theorem xor_add_twoPow (k : Nat) : ∃ j, x >>> k ^^^ (x + BitVec.twoPow w k) >>> k = ones w j := by
  rcases Nat.lt_or_ge k w with inside | far
  · have part : 2 ^ w = 2 ^ k * 2 ^ (w - k) := by rw [← Nat.pow_add, Nat.add_sub_cancel' inside.le]
    have positive := Nat.two_pow_pos k
    have next : ((x + BitVec.twoPow w k) >>> k).toNat = (x.toNat / 2 ^ k + 1) % 2 ^ (w - k) := by
      rw [BitVec.toNat_ushiftRight, Nat.shiftRight_eq_div_pow, BitVec.toNat_add, BitVec.toNat_twoPow_of_lt inside, part,
        Nat.mod_mul_right_div_self, Nat.add_div_right _ positive]
    have small : x.toNat / 2 ^ k < 2 ^ (w - k) := Nat.div_lt_of_lt_mul (part ▸ x.isLt)
    obtain ⟨j, block⟩ := xor_succ_mod small
    refine ⟨min j (w - k), BitVec.eq_of_toNat_eq ?_⟩
    rw [BitVec.toNat_xor, next, BitVec.toNat_ushiftRight, Nat.shiftRight_eq_div_pow, block, toNat_ones]
    congr 2
    omega
  · refine ⟨0, ?_⟩
    rw [BitVec.ushiftRight_eq_zero far, BitVec.ushiftRight_eq_zero far, ones_zero]
    exact BitVec.xor_self

/-- Between the codes of a number and of the one a power of two above it only a step up can be mistaken. -/
theorem decode_mixture_step (k : Nat) (chosen : BitVec w) :
    let seen := decode (mixture chosen (encode x) (encode (x + BitVec.twoPow w k))) 1 Nat.one_pos
    seen >>> k = x >>> k ∨ seen >>> k = (x + BitVec.twoPow w k) >>> k := by
  intro seen
  have told := (decode_mixture_iff (x >>> k) ((x + BitVec.twoPow w k) >>> k)).2 (xor_add_twoPow x k) (chosen >>> k)
  rwa [← decode_mixture_ushiftRight] at told

end WrCores.Words.Gray
