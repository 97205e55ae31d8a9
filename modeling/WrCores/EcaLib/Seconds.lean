import WrCores.Words.Traced
import Mathlib.Tactic

/-!
`ECA::seconds`: a time in units of the unit's clock as whole seconds. The product with `freq_div` has up to 80 bits and
is divided in two words, so that the quotient has no rounding but that of the last division. `Traced` marks the
operations that wrap.
-/

namespace WrCores.EcaLib

open Words

/-- What `ECA::probe` reads of the clock; its frequency is `freq_mul*5^freq_5s*2^freq_2s/freq_div`. -/
structure ECA where
  time : BitVec 64
  freqMul : BitVec 32
  freq5s : BitVec 8
  freq2s : BitVec 8
  freqDiv : BitVec 16
  deriving DecidableEq, Repr

namespace ECA

def probe (time1 time0 freq1 freq0 : BitVec 32) : ECA where
  time := (time1.setWidth 64 <<< 32) ||| time0.setWidth 64
  freqMul := freq1
  freq5s := ((freq0 >>> 24) &&& 0xff).setWidth 8
  freq2s := ((freq0 >>> 16) &&& 0xff).setWidth 8
  freqDiv := (freq0 &&& 0xffff).setWidth 16

theorem masked (n : Nat) (v : BitVec 32) (narrow : n ≤ 32) :
    (v &&& BitVec.ofNat 32 (2 ^ n - 1)).setWidth n = v.setWidth n := by
  apply BitVec.eq_of_toNat_eq
  have fits : 2 ^ n - 1 < 2 ^ 32 :=
    (Nat.sub_lt (Nat.two_pow_pos n) one_pos).trans_le (Nat.pow_le_pow_right two_pos narrow)
  rw [BitVec.toNat_setWidth, BitVec.toNat_setWidth, BitVec.toNat_and, BitVec.toNat_ofNat, Nat.mod_eq_of_lt fits,
    Nat.and_two_pow_sub_one_eq_mod, Nat.mod_mod]

/-- The registers can hold any clock. -/
theorem probe_onto (e : ECA) : ∃ time1 time0 freq1 freq0, probe time1 time0 freq1 freq0 = e := by
  refine ⟨(e.time >>> 32).setWidth 32, e.time.setWidth 32, e.freqMul, e.freq5s ++ e.freq2s ++ e.freqDiv, ?_⟩
  have byte (v : BitVec 32) : (v &&& 0xff).setWidth 8 = v.setWidth 8 := masked 8 v (by norm_num)
  have half (v : BitVec 32) : (v &&& 0xffff).setWidth 16 = v.setWidth 16 := masked 16 v (by norm_num)
  cases e
  simp only [probe, byte, half, mk.injEq]
  refine ⟨?_, trivial, ?_, ?_, ?_⟩
  all_goals
    ext k inside
    grind

/-- An operand of a smaller type, widened to `uint64_t`. -/
def operand {n : Nat} (v : BitVec n) : Traced 64 := { bits := v.setWidth 64 }

/-- Step 0 and step 1. -/
def product (e : ECA) (t : BitVec 64) : Halves 64 :=
  let t : Traced 64 := { bits := t }
  let high := t >>> 32 * operand e.freqDiv
  let low := (t &&& 0xFFFFFFFF) * operand e.freqDiv
  { high := high + low >>> 32, low := low &&& 0xFFFFFFFF }

/-- The three divisions, before the words are put together. -/
def quotient (e : ECA) (t : BitVec 64) : Halves 64 :=
  let halved := (fun h => h.divide 32 2)^[e.freq2s.toNat] (e.product t)
  let fifths := (fun h => h.divide 32 5)^[e.freq5s.toNat] halved
  fifths.divide 32 (operand e.freqMul)

/-- There is no result when the assertion fails. -/
def seconds (e : ECA) (t : BitVec 64) : Option (BitVec 64) :=
  let h := e.quotient (if t = -1 then e.time else t)
  let low := h.low + h.high <<< 32
  let high := h.high >>> 32
  if high.bits = 0 then some low.bits else none

variable (e : ECA) (t : BitVec 64)

/-- `freqDiv` seconds have so many ticks of the clock. -/
def rate : Nat := e.freqMul.toNat * 2 ^ e.freq2s.toNat * 5 ^ e.freq5s.toNat

def wholeSeconds : Nat := t.toNat * e.freqDiv.toNat / e.rate

theorem operand_holds {n : Nat} (v : BitVec n) (narrow : n ≤ 64) : (operand v).Holds v.toNat := by
  refine ⟨rfl, ?_⟩
  rw [operand, BitVec.toNat_setWidth, Nat.mod_eq_of_lt (v.isLt.trans_le (Nat.pow_le_pow_right two_pos narrow))]

theorem low_half {x : Traced 64} {n : Nat} (held : x.Holds n) : (x &&& 0xFFFFFFFF).Holds (n % 2 ^ 32) := by
  have masked := held.and (Traced.holds_ofNat (w := 64) (n := 0xFFFFFFFF) (by norm_num))
  rwa [show n &&& 0xFFFFFFFF = n % 2 ^ 32 from Nat.and_two_pow_sub_one_eq_mod n 32] at masked

theorem product_holds : (e.product t).Holds 32 (t.toNat * e.freqDiv.toNat) := by
  have divisor := operand_holds e.freqDiv (by norm_num)
  have time := Traced.holds_word t
  have high : t.toNat / 2 ^ 32 ≤ 2 ^ 32 - 1 := by have := t.isLt; omega
  have low : t.toNat % 2 ^ 32 ≤ 2 ^ 32 - 1 := by omega
  have factor : e.freqDiv.toNat ≤ 2 ^ 16 - 1 := by have := e.freqDiv.isLt; omega
  have highFits := Nat.mul_le_mul high factor
  have lowFits := Nat.mul_le_mul low factor
  have split : t.toNat * e.freqDiv.toNat =
      2 ^ 32 * (t.toNat / 2 ^ 32 * e.freqDiv.toNat) + t.toNat % 2 ^ 32 * e.freqDiv.toNat := by
    conv_lhs => rw [← Nat.div_add_mod t.toNat (2 ^ 32)]
    ring
  have upper := (time.shiftRight (k := 32)).mul divisor (by omega)
  have lower := (low_half time).mul divisor (by omega)
  constructor
  · have carried := upper.add (lower.shiftRight (k := 32)) (by omega)
    rwa [split, Nat.mul_add_div (Nat.two_pow_pos 32)]
  · have kept := low_half lower
    rwa [split, Nat.mul_add_mod]

theorem quotient_holds (positive : 0 < e.freqMul.toNat) : (e.quotient t).Holds 32 (e.wholeSeconds t) := by
  have halved := (e.product_holds t).divides (Traced.holds_ofNat (w := 64) (n := 2) (by norm_num)) two_pos
    (by norm_num) e.freq2s.toNat
  have fifths := halved.divides (Traced.holds_ofNat (w := 64) (n := 5) (by norm_num)) (by norm_num)
    (by norm_num) e.freq5s.toNat
  have divided := fifths.divide (operand_holds e.freqMul (by norm_num)) positive
    (by have := e.freqMul.isLt; omega)
  have nested : t.toNat * e.freqDiv.toNat / 2 ^ e.freq2s.toNat / 5 ^ e.freq5s.toNat / e.freqMul.toNat =
      e.wholeSeconds t := by
    rw [wholeSeconds, rate, Nat.div_div_eq_div_mul, Nat.div_div_eq_div_mul]
    congr 1
    ring
  rwa [nested] at divided

/-- The upper word holds what does not fit when the words are put together. -/
theorem recombined {h : Halves 64} {n : Nat} (held : h.Holds 32 n) :
    ((h.high >>> 32).bits = 0 ↔ n < 2 ^ 64) ∧ (n < 2 ^ 64 → (h.low + h.high <<< 32).bits.toNat = n) := by
  have rest := (held.high.shiftRight (k := 32)).value
  constructor
  · rw [← BitVec.toNat_inj, rest, show (0 : BitVec 64).toNat = 0 from rfl]
    omega
  · intro fits
    have shifted := held.high.shiftLeft (k := 32) (by omega)
    rw [(held.low.add shifted (by omega)).value]
    omega

theorem seconds_exact (given : t ≠ -1) (positive : 0 < e.freqMul.toNat) :
    ((e.quotient t).high.wrapped = false ∧ (e.quotient t).low.wrapped = false) ∧
      ((e.seconds t).isSome = true ↔ e.wholeSeconds t < 2 ^ 64) ∧
      ∀ seconds ∈ e.seconds t, seconds.toNat = e.wholeSeconds t := by
  have held := e.quotient_holds t positive
  obtain ⟨asserted, whole⟩ := recombined held
  refine ⟨⟨held.high.kept, held.low.kept⟩, ?_, fun seconds found => ?_⟩
  · rw [← asserted, seconds, if_neg given]
    simp
  · rw [ECA.seconds, if_neg given] at found
    split at found
    case isTrue zero =>
      rw [← Option.some.inj found]
      exact whole (asserted.1 zero)
    case isFalse => cases found

theorem seconds_slow :
    let e := probe 0 0 3 0x00010001
    ((e.quotient 3).high.wrapped = false ∧ (e.quotient 3).low.wrapped = false) ∧
      ((e.seconds 3).isSome = true ↔ e.wholeSeconds 3 < 2 ^ 64) ∧
      ∀ seconds ∈ e.seconds 3, seconds.toNat = e.wholeSeconds 3 :=
  seconds_exact (probe 0 0 3 0x00010001) 3 (by decide) (by decide)

end ECA

end WrCores.EcaLib
