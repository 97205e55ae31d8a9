import Mathlib.Data.List.Perm.Basic
import Mathlib.Tactic

/-!
The bitonic sorting network, on the columns `0 .. 2 ^ n - 1` of a vector. A comparator gives `first` and `second` of two
values. A test turns values into bits such that `first` is the conjunction and `second` the disjunction; what the
network does with values it does with their bits. In bits the merger takes a vector whose ones, or zeros, are all in one
stretch, cleans one half and leaves such a vector in the other. Nothing here names a circuit.
-/

namespace WrCores.Network

variable {α : Type*}

def join (half : Nat) (low high : Nat → α) (i : Nat) : α := if i < half then low i else high (i - half)

def merge (first second : α → α → α) : Nat → (Nat → α) → Nat → α
  | 0, v => v
  | n + 1, v => join (2 ^ n) (merge first second n fun i => first (v i) (v (i + 2 ^ n)))
      (merge first second n fun i => second (v i) (v (i + 2 ^ n)))

/-- The halves are sorted in opposite directions. -/
def sort (first second : α → α → α) : Nat → (Nat → α) → Nat → α
  | 0, v => v
  | n + 1, v => merge first second (n + 1)
      (join (2 ^ n) (sort first second n v) (sort second first n fun i => v (i + 2 ^ n)))

theorem join_split (half : Nat) (v : Nat → α) : join half v (fun i => v (i + half)) = v := by
  funext i
  rw [join]
  split
  · rfl
  · rw [Nat.sub_add_cancel (by omega)]

/-! ### Permutations -/

def Swaps (first second : α → α → α) : Prop :=
  ∀ a b, (first a b = a ∧ second a b = b) ∨ (first a b = b ∧ second a b = a)

theorem Swaps.symm {first second : α → α → α} (swaps : Swaps first second) : Swaps second first := by
  intro a b
  rcases swaps a b with ⟨one, other⟩ | ⟨one, other⟩
  · exact .inr ⟨other, one⟩
  · exact .inl ⟨other, one⟩

def column (v : Nat → α) (n : Nat) : List α := (List.range n).map v

theorem column_add (v : Nat → α) (m n : Nat) : column v (m + n) = column v m ++ column (fun i => v (i + m)) n := by
  simp [column, List.range_add, Nat.add_comm]

theorem column_join (half n : Nat) (low high : Nat → α) :
    column (join half low high) (half + n) = column low half ++ column high n := by
  rw [column_add]
  congr 1
  · exact List.map_congr_left fun i inside => if_pos (List.mem_range.1 inside)
  · refine List.map_congr_left fun i _ => ?_
    rw [join, if_neg (by omega), Nat.add_sub_cancel]

theorem pairs_perm {first second : α → α → α} (swaps : Swaps first second) (u v : Nat → α) (places : List Nat) :
    (places.map (fun i => first (u i) (v i)) ++ places.map fun i => second (u i) (v i)).Perm
      (places.map u ++ places.map v) := by
  induction places with
  | nil => rfl
  | cons i rest ih =>
      simp only [List.map_cons, List.cons_append]
      refine (List.Perm.cons _ List.perm_middle).trans (.trans ?_ (List.Perm.cons _ List.perm_middle.symm))
      rcases swaps (u i) (v i) with ⟨one, other⟩ | ⟨one, other⟩
      · rw [one, other]
        exact (ih.cons _).cons _
      · rw [one, other]
        exact ((ih.cons _).cons _).trans (.swap _ _ _)

theorem merge_perm {first second : α → α → α} (swaps : Swaps first second) (n : Nat) (v : Nat → α) :
    (column (merge first second n v) (2 ^ n)).Perm (column v (2 ^ n)) := by
  induction n generalizing v with
  | zero => rfl
  | succ n ih =>
      rw [pow_succ, Nat.mul_two, merge, column_join, column_add]
      exact ((ih _).append (ih _)).trans (pairs_perm swaps ..)

theorem sort_perm {first second : α → α → α} (swaps : Swaps first second) (n : Nat) (v : Nat → α) :
    (column (sort first second n v) (2 ^ n)).Perm (column v (2 ^ n)) := by
  induction n generalizing first second v with
  | zero => rfl
  | succ n ih =>
      refine (merge_perm swaps ..).trans ?_
      rw [pow_succ, Nat.mul_two, column_join, column_add]
      exact (ih swaps _).append (ih swaps.symm _)

/-! ### Vectors of bits -/

def Rising (u : Nat → Bool) (n : Nat) : Prop := ∀ i j, i ≤ j → j < n → u i = true → u j = true

/-- The columns with the value `x` are those from `a` up to `b`. -/
def Stretch (u : Nat → Bool) (n : Nat) (x : Bool) (a b : Nat) : Prop :=
  a ≤ b ∧ b ≤ n ∧ ∀ i < n, u i = x ↔ a ≤ i ∧ i < b

def Round (u : Nat → Bool) (n : Nat) : Prop := ∃ x a b, Stretch u n x a b

theorem Stretch.not {u : Nat → Bool} {n a b : Nat} {x : Bool} (stretch : Stretch u n x a b) :
    Stretch (fun i => !u i) n (!x) a b :=
  ⟨stretch.1, stretch.2.1, fun i inside => by rw [← stretch.2.2 i inside]; simp⟩

theorem Round.not {u : Nat → Bool} {n : Nat} (round : Round u n) : Round (fun i => !u i) n := by
  obtain ⟨x, a, b, stretch⟩ := round
  exact ⟨!x, a, b, stretch.not⟩

/-- One half is clean, and the other is round again. -/
structure Cleaned (u : Nat → Bool) (half : Nat) : Prop where
  low : Round (fun i => u i && u (i + half)) half
  high : Round (fun i => u i || u (i + half)) half
  clean : (∀ i < half, (u i && u (i + half)) = false) ∨ ∀ i < half, (u i || u (i + half)) = true

theorem cleaned_ones {u : Nat → Bool} {half a b : Nat} (stretch : Stretch u (half + half) true a b) :
    Cleaned u half := by
  obtain ⟨order, bound, ones⟩ := stretch
  have low (i : Nat) (inside : i < half) : (u i && u (i + half)) = true ↔ a ≤ i ∧ i + half < b := by
    rw [Bool.and_eq_true, ones i (by omega), ones (i + half) (by omega)]
    omega
  have high (i : Nat) (inside : i < half) :
      (u i || u (i + half)) = true ↔ (a ≤ i ∧ i < b) ∨ (a ≤ i + half ∧ i + half < b) := by
    rw [Bool.or_eq_true, ones i (by omega), ones (i + half) (by omega)]
  refine ⟨⟨true, min a half, max (min a half) (b - half), by omega, by omega, fun i inside => ?_⟩, ?_, ?_⟩
  · rw [low i inside]
    omega
  · by_cases left : b ≤ half
    · refine ⟨true, a, b, order, left, fun i inside => ?_⟩
      rw [high i inside]
      omega
    · by_cases right : half ≤ a
      · refine ⟨true, a - half, b - half, by omega, by omega, fun i inside => ?_⟩
        rw [high i inside]
        omega
      · refine ⟨false, min (b - half) a, a, by omega, by omega, fun i inside => ?_⟩
        rw [← Bool.not_eq_true, high i inside]
        omega
  · by_cases short : b ≤ a + half
    · refine .inl fun i inside => ?_
      rw [← Bool.not_eq_true, low i inside]
      omega
    · refine .inr fun i inside => ?_
      rw [high i inside]
      omega

theorem Round.cleaned {u : Nat → Bool} {half : Nat} (round : Round u (half + half)) : Cleaned u half := by
  obtain ⟨x, a, b, stretch⟩ := round
  cases x with
  | true => exact cleaned_ones stretch
  | false =>
      -- the zeros of a conjunction are the ones of the disjunction of the complements
      have other := cleaned_ones stretch.not
      constructor
      · simpa using other.high.not
      · simpa using other.low.not
      · rcases other.clean with zeros | ones
        · exact .inr fun i inside => by simpa [← Bool.not_or] using zeros i inside
        · exact .inl fun i inside => by simpa [← Bool.not_and] using ones i inside

/-! ### Tests -/

structure Test (first second : α → α → α) (bit : α → Bool) : Prop where
  first : ∀ a b, bit (first a b) = (bit a && bit b)
  second : ∀ a b, bit (second a b) = (bit a || bit b)

variable {first second : α → α → α} {bit : α → Bool}

theorem Test.not (test : Test first second bit) : Test second first fun a => !bit a :=
  ⟨fun a b => by rw [test.second, Bool.not_or], fun a b => by rw [test.first, Bool.not_and]⟩

/-- A vector of one bit stays one. -/
theorem merge_clean (test : Test first second bit) (x : Bool) (n : Nat) {v : Nat → α}
    (clean : ∀ i < 2 ^ n, bit (v i) = x) : ∀ i < 2 ^ n, bit (merge first second n v i) = x := by
  induction n generalizing v with
  | zero => exact clean
  | succ n ih =>
      intro i inside
      have left (k : Nat) (inside : k < 2 ^ n) := clean k (by omega)
      have right (k : Nat) (inside : k < 2 ^ n) := clean (k + 2 ^ n) (by omega)
      rw [merge, join]
      split
      next lower =>
        refine ih (fun k inside => ?_) i lower
        rw [test.first, left k inside, right k inside, Bool.and_self]
      next upper =>
        refine ih (fun k inside => ?_) _ (by omega)
        rw [test.second, left k inside, right k inside, Bool.or_self]

theorem merge_rising (test : Test first second bit) (n : Nat) {v : Nat → α}
    (round : Round (fun i => bit (v i)) (2 ^ n)) : Rising (fun i => bit (merge first second n v i)) (2 ^ n) := by
  induction n generalizing v with
  | zero =>
      intro i j order inside one
      rwa [show j = i by omega]
  | succ n ih =>
      rw [pow_succ, Nat.mul_two] at round
      obtain ⟨low, high, clean⟩ := round.cleaned
      simp only [← test.first, ← test.second] at low high clean
      have low := ih low
      have high := ih high
      intro i j order inside one
      simp only [merge, join] at one ⊢
      by_cases lower : j < 2 ^ n
      · rw [if_pos (by omega)] at one
        rw [if_pos lower]
        exact low i j order lower one
      · rw [if_neg lower]
        by_cases across : i < 2 ^ n
        · rw [if_pos across] at one
          rcases clean with zeros | ones
          · rw [merge_clean test false n zeros i across] at one
            cases one
          · exact merge_clean test true n ones _ (by omega)
        · rw [if_neg across] at one
          exact high (i - 2 ^ n) (j - 2 ^ n) (by omega) (by omega) one

theorem Rising.start {u : Nat → Bool} {n : Nat} (rising : Rising u n) : ∃ a ≤ n, ∀ i < n, u i = true ↔ a ≤ i := by
  induction n with
  | zero => exact ⟨0, le_rfl, fun i inside => by omega⟩
  | succ n ih =>
      cases last : u n with
      | false =>
          refine ⟨n + 1, le_rfl, fun i inside => ?_⟩
          have zero : u i ≠ true := fun one => by
            have above := rising i n (by omega) (by omega) one
            rw [last] at above
            cases above
          simp [zero]
          omega
      | true =>
          obtain ⟨a, bound, ones⟩ := ih fun i j order inside => rising i j order (by omega)
          refine ⟨a, by omega, fun i inside => ?_⟩
          by_cases here : i = n
          · rw [here, last]
            simp [bound]
          · exact ones i (by omega)

/-- Two vectors that are sorted in opposite directions. -/
theorem round_join {low high : Nat → Bool} {half : Nat} (rising : Rising low half)
    (falling : Rising (fun i => !high i) half) : Round (join half low high) (half + half) := by
  obtain ⟨a, left, ones⟩ := rising.start
  obtain ⟨b, right, zeros⟩ := falling.start
  refine ⟨true, a, half + b, by omega, by omega, fun i inside => ?_⟩
  rw [join]
  split
  next lower =>
    rw [ones i lower]
    omega
  next upper =>
    have zero := zeros (i - half) (by omega)
    rw [Bool.not_eq_true'] at zero
    rw [← Bool.not_eq_false, zero]
    omega

theorem join_comp {β : Type*} (f : α → β) (half : Nat) (low high : Nat → α) :
    (fun i => f (join half low high i)) = join half (fun i => f (low i)) fun i => f (high i) := by
  funext i
  rw [join, join]
  split <;> rfl

theorem sort_rising (test : Test first second bit) (n : Nat) (v : Nat → α) :
    Rising (fun i => bit (sort first second n v i)) (2 ^ n) := by
  induction n generalizing first second bit v with
  | zero =>
      intro i j order inside one
      rwa [show j = i by omega]
  | succ n ih =>
      rw [sort]
      refine merge_rising test (n + 1) ?_
      rw [pow_succ, Nat.mul_two, join_comp bit]
      exact round_join (ih test v) (ih test.not _)

end WrCores.Network
