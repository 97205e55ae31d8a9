import Mathlib.Data.BitVec
import Mathlib.Tactic

/-!
`f_rr_arbitrate` and `f_onehot_decode` of gencores_pkg.vhd. A grant vector has one bit or none; as long as the channel
with the grant still requests, it keeps it. Then the grant moves on to the nearest request above, around the end.
-/

namespace WrCores.Gencores

variable {n : Nat}

def fRrArbitrate (req preGrant : BitVec n) : BitVec n :=
  let gnt := req &&& (~~~req + 1#n)
  let reqs := req &&& ~~~((preGrant - 1#n) ||| preGrant)
  let gnts := reqs &&& (~~~reqs + 1#n)
  let gntM := if reqs = 0#n then gnt else gnts
  if req &&& preGrant = 0#n then gntM else preGrant

def fOnehotDecode (x : BitVec n) (size : Nat) : BitVec size :=
  BitVec.ofNat size (((List.range n).find? x.getLsbD).getD 0)

/-- A grant as a vector. -/
def oneHot : Option (Fin n) → BitVec n
  | none => 0#n
  | some i => BitVec.twoPow n i

/-- How many places from the last grant up to a channel, the channel itself being the farthest. -/
def distance : Option (Fin n) → Fin n → Nat
  | none, i => i + 1
  | some g, i => if g < i then i - g else i + n - g

theorem distance_pos (g : Option (Fin n)) (i : Fin n) : 0 < distance g i := by
  cases g with
  | none => exact Nat.succ_pos i
  | some g =>
      rw [distance]
      split <;> omega

theorem distance_le (g : Option (Fin n)) (i : Fin n) : distance g i ≤ n := by
  cases g with
  | none => exact i.isLt
  | some g =>
      rw [distance]
      split <;> omega

theorem distance_other {g i : Fin n} (other : i ≠ g) : distance (some g) i < n := by
  rw [distance]
  split <;> omega

/-- Behind the next grant the way is shorter. -/
theorem distance_after (g : Option (Fin n)) {i j : Fin n} (other : i ≠ j) (nearer : distance g j ≤ distance g i) :
    distance (some j) i < distance g i := by
  cases g with
  | none =>
      simp only [distance] at nearer ⊢
      split <;> omega
  | some g =>
      simp only [distance] at nearer ⊢
      split at nearer <;> split at nearer <;> split <;> omega

@[simp] theorem getElem_oneHot (g : Option (Fin n)) (i : Fin n) : (oneHot g)[i.val] = decide (g = some i) := by
  cases g with
  | none => simp [oneHot]
  | some j => simp [oneHot, Fin.ext_iff, eq_comm]

theorem bits_ext {x y : BitVec n} (same : ∀ i : Fin n, x[i.val] = y[i.val]) : x = y :=
  BitVec.eq_of_getElem_eq fun i inside => same ⟨i, inside⟩

theorem eq_zero_iff_bits (x : BitVec n) : x = 0#n ↔ ∀ i : Fin n, x[i.val] = false := by
  constructor
  · rintro rfl i
    exact BitVec.getElem_zero _
  · exact fun none => bits_ext fun i => by rw [none i, BitVec.getElem_zero]

theorem exists_below (x : BitVec n) (i : Fin n) :
    (∃ j < i.val, x.getLsbD j = true) ↔ ∃ j < i, x[j.val] = true := by
  constructor
  · rintro ⟨j, less, bit⟩
    have inside : j < n := less.trans i.isLt
    exact ⟨⟨j, inside⟩, less, by rwa [← BitVec.getLsbD_eq_getElem inside]⟩
  · rintro ⟨j, less, bit⟩
    exact ⟨j, less, by rwa [BitVec.getLsbD_eq_getElem j.isLt]⟩

/-- The lowest bit. -/
theorem getElem_lowest (x : BitVec n) (i : Fin n) :
    (x &&& (~~~x + 1#n))[i.val] = (x[i.val] && decide (∀ j < i, x[j.val] = false)) := by
  have below : (∀ j < i, x[j.val] = false) ↔ ¬∃ j < i, x[j.val] = true := by simp
  rw [← BitVec.neg_eq_not_add, BitVec.getElem_and, BitVec.getElem_neg]
  simp only [exists_below, below, decide_not]
  cases x[i.val] with
  | false => rfl
  | true => cases decide (∃ j < i, x[j.val] = true) <;> rfl

theorem lowest_oneHot {x : BitVec n} (some : x ≠ 0#n) : ∃ j : Fin n, x &&& (~~~x + 1#n) = oneHot (Option.some j) ∧
    x[j.val] = true ∧ ∀ i < j, x[i.val] = false := by
  have exists_bit : ∃ j : Fin n, x[j.val] = true := by
    by_contra none
    push Not at none
    exact some ((eq_zero_iff_bits x).2 fun i => by simpa using none i)
  obtain ⟨j, bit, first⟩ := WellFounded.has_min (wellFounded_lt (α := Fin n)) {j | x[j.val] = true} exists_bit
  have on : x[j.val] = true := bit
  have below : ∀ i < j, x[i.val] = false := fun i less => by
    by_contra high
    exact first i (by simpa using high) less
  refine ⟨j, bits_ext fun i => ?_, on, below⟩
  rw [getElem_lowest, getElem_oneHot]
  rcases lt_trichotomy i j with less | rfl | more
  · simp [below i less, less.ne']
  · simpa [on] using below
  · have hides : ¬∀ k < i, x[k.val] = false := fun none => by simp [none j more] at on
    simp [hides, more.ne]

/-- The requests above the last grant. -/
theorem getElem_above (req : BitVec n) (g i : Fin n) :
    (req &&& ~~~((oneHot (some g) - 1#n) ||| oneHot (some g)))[i.val] = (req[i.val] && decide (g < i)) := by
  rw [← BitVec.not_neg]
  simp only [BitVec.getElem_and, BitVec.getElem_not, BitVec.getElem_or, BitVec.getElem_neg, exists_below,
    getElem_oneHot]
  rcases lt_trichotomy g i with less | rfl | more
  · simp [less, less.ne]
  · simp
  · simp [more.not_gt, more.ne']

theorem above_none (req : BitVec n) : req &&& ~~~((oneHot (n := n) none - 1#n) ||| oneHot none) = 0#n := by
  apply bits_ext
  intro i
  rw [← BitVec.not_neg]
  simp [oneHot]

theorem fRrArbitrate_held {req preGrant : BitVec n} (busy : req &&& preGrant ≠ 0#n) :
    fRrArbitrate req preGrant = preGrant := by
  simp [fRrArbitrate, busy]

theorem fRrArbitrate_zero (g : Option (Fin n)) : fRrArbitrate 0#n (oneHot g) = oneHot none := by
  simp [fRrArbitrate, oneHot]

/-- The next grant goes to the nearest request. -/
theorem fRrArbitrate_next {req : BitVec n} {g : Option (Fin n)} (idle : req &&& oneHot g = 0#n) (some : req ≠ 0#n) :
    ∃ j : Fin n, fRrArbitrate req (oneHot g) = oneHot (Option.some j) ∧ req[j.val] = true ∧
      ∀ i : Fin n, req[i.val] = true → distance g j ≤ distance g i := by
  by_cases above : req &&& ~~~((oneHot g - 1#n) ||| oneHot g) = 0#n
  · obtain ⟨j, grant, bit, first⟩ := lowest_oneHot some
    refine ⟨j, by simp only [fRrArbitrate, above, idle, if_true, grant], bit, fun i on => ?_⟩
    have least : j ≤ i := by
      by_contra less
      rw [first i (not_le.1 less)] at on
      exact Bool.false_ne_true on
    cases g with
    | none =>
        simp only [distance]
        omega
    | some g =>
        -- no request is above the last grant
        have low : ∀ k : Fin n, req[k.val] = true → k ≤ g := by
          intro k on
          have off := (eq_zero_iff_bits _).1 above k
          rw [getElem_above, on] at off
          simpa using off
        have lowI := low i on
        have lowJ := low j bit
        simp only [distance]
        split <;> split <;> omega
  · obtain ⟨j, grant, bit, first⟩ := lowest_oneHot above
    cases g with
    | none => exact absurd (above_none req) above
    | some g =>
        rw [getElem_above, Bool.and_eq_true, decide_eq_true_eq] at bit
        refine ⟨j, by simp only [fRrArbitrate, above, idle, if_true, if_false, grant], bit.1, fun i on => ?_⟩
        simp only [distance, if_pos bit.2]
        split
        · rename_i more
          by_contra less
          have off := first i (by omega)
          rw [getElem_above, on] at off
          simp [more] at off
        · omega

theorem fOnehotDecode_oneHot (i : Fin n) (size : Nat) : fOnehotDecode (oneHot (some i)) size = BitVec.ofNat size i := by
  have first : (List.range n).find? (oneHot (some i)).getLsbD = some i.val := by
    rw [List.find?_range_eq_some]
    refine ⟨?_, by simp, fun j less => ?_⟩
    · rw [BitVec.getLsbD_eq_getElem i.isLt, getElem_oneHot]
      simp
    · have inside : j < n := less.trans i.isLt
      have off := getElem_oneHot (some i) ⟨j, inside⟩
      rw [BitVec.getLsbD_eq_getElem inside, off]
      simp [Fin.ext_iff]
      omega
  rw [fOnehotDecode, first]
  rfl

end WrCores.Gencores
