import Mathlib.Data.Nat.Count
import Mathlib.Tactic

/-!
Stretches of a stream of bits. `number` counts the samples of one value, `Flat` says that there is no other value, and
`First` is the first stretch of a given length from a place on, found by a counter that is cleared by each sample of the
other value (`Trailing`). The median of a stretch has as many samples of one value before it as of the other behind it.
Nothing here names a circuit.
-/

namespace WrCores.Samples

variable (x : Nat → Bool) (v : Bool)

/-- The samples with the value `v` from `a` on and before `b`. -/
def number (a b : Nat) : Nat := Nat.count (fun k => x (a + k) = v) (b - a)

def Flat (a b : Nat) : Prop := ∀ k, a ≤ k → k < b → x k = v

/-- As many samples `v` from `a` on before `p` as others from there on before `b`. -/
def Balanced (a b p : Nat) : Prop := a ≤ p ∧ p ≤ b ∧ number x v a p = number x (!v) p b

/-- The first stretch of `len` samples that are `v`, looked for from `n` on. -/
structure First (len n z : Nat) : Prop where
  behind : n ≤ z
  flat : Flat x v z (z + len)
  least : ∀ y, n ≤ y → y < z → ¬ Flat x v y (y + len)

/-- Of the samples from `n` on and before `m` the last `c` are `v`, and no stretch of `len` came to its end before. -/
structure Trailing (len n m c : Nat) : Prop where
  most : c ≤ len
  inside : n + c ≤ m
  flat : Flat x v (m - c) m
  stops : m - c = n ∨ ∃ k, n ≤ k ∧ k + 1 = m - c ∧ x k ≠ v
  none : ∀ y, n ≤ y → y + len < m → ¬ Flat x v y (y + len)

/-- The last `c` samples before `m` are `v`, all that are in a row unless there are more than `len`. -/
structure Lasting (len m c : Nat) : Prop where
  most : c ≤ len
  inside : c ≤ m
  flat : Flat x v (m - c) m
  stops : c = len ∨ c = m ∨ x (m - c - 1) ≠ v

variable {x v} {a b p len n m c z : Nat}

@[simp] theorem number_self : number x v a a = 0 := by simp [number]

theorem number_succ (less : a ≤ b) : number x v a (b + 1) = number x v a b + if x b = v then 1 else 0 := by
  rw [number, number, Nat.succ_sub less, Nat.count_succ, Nat.add_sub_cancel' less]

theorem number_split (left : a ≤ p) (right : p ≤ b) : number x v a b = number x v a p + number x v p b := by
  rw [number, number, number, show b - a = p - a + (b - p) by omega, Nat.count_add]
  simp only [← Nat.add_assoc, Nat.add_sub_cancel' left]

theorem number_both (less : a ≤ b) : number x v a b + number x (!v) a b = b - a := by
  induction b, less using Nat.le_induction with
  | base => simp
  | succ b less ih =>
      have one : (if x b = v then 1 else 0) + (if x b = !v then 1 else 0) = 1 := by
        cases x b <;> cases v <;> rfl
      rw [number_succ less, number_succ less]
      omega

theorem number_flat (flat : Flat x v a b) : number x v a b = b - a := by
  rw [number, Nat.count_of_forall]
  intro k less
  exact flat (a + k) (Nat.le_add_right a k) (by omega)

theorem number_flat_other (less : a ≤ b) (flat : Flat x v a b) : number x (!v) a b = 0 := by
  have both := number_both (x := x) (v := v) less
  rw [number_flat flat] at both
  omega

/-- The median of a stretch lies behind as many places as there are samples of the other value. -/
theorem balanced_iff (less : a ≤ b) : Balanced x v a b p ↔ p = a + number x (!v) a b := by
  have most := number_both (x := x) (v := v) less
  constructor
  · rintro ⟨left, right, equal⟩
    have both := number_both (x := x) (v := v) left
    have split := number_split (x := x) (v := !v) left right
    omega
  · rintro rfl
    have left : a ≤ a + number x (!v) a b := Nat.le_add_right _ _
    have right : a + number x (!v) a b ≤ b := by omega
    have both := number_both (x := x) (v := v) left
    have split := number_split (x := x) (v := !v) left right
    exact ⟨left, right, by omega⟩

/-- That of an edge without glitches is the edge. -/
theorem balanced_edge (left : a ≤ p) (right : p ≤ b) (old : Flat x (!v) a p) (new : Flat x v p b) :
    Balanced x v a b p := by
  have none := number_flat_other left old
  rw [Bool.not_not] at none
  exact ⟨left, right, none.trans (number_flat_other right new).symm⟩

theorem flat_self : Flat x v a a := fun _ left right => absurd left (by omega)

theorem Flat.part (flat : Flat x v a b) {c d : Nat} (left : a ≤ c) (right : d ≤ b) : Flat x v c d :=
  fun k behind before => flat k (left.trans behind) (before.trans_le right)

theorem Flat.snoc (flat : Flat x v a b) (here : x b = v) : Flat x v a (b + 1) := by
  intro k behind before
  rcases Nat.lt_succ_iff_lt_or_eq.mp before with old | rfl
  · exact flat k behind old
  · exact here

theorem First.unique {y : Nat} (one : First x v len n z) (other : First x v len n y) : y = z := by
  rcases Nat.lt_trichotomy y z with less | same | more
  · exact absurd other.flat (one.least y other.behind less)
  · exact same
  · exact absurd one.flat (other.least z one.behind more)

theorem exists_first (len : Nat) (behind : n ≤ z) (flat : Flat x v z (z + len)) : ∃ y ≤ z, First x v len n y := by
  classical
  have some : ∃ y, n ≤ y ∧ Flat x v y (y + len) := ⟨z, behind, flat⟩
  refine ⟨Nat.find some, Nat.find_min' some ⟨behind, flat⟩, (Nat.find_spec some).1, (Nat.find_spec some).2, ?_⟩
  intro y from_n less now
  exact Nat.find_min some less ⟨from_n, now⟩

/-! ### The counter -/

theorem trailing_start : Trailing x v len n n 0 :=
  ⟨len.zero_le, le_rfl, flat_self, .inl rfl, fun y from_n less => absurd from_n (by omega)⟩

/-- A stretch that ends here fits behind the last sample of the other value. -/
theorem Trailing.short (trailing : Trailing x v len n m c) {y : Nat} (from_n : n ≤ y) (ends : y + len = m)
    (flat : Flat x v y (y + len)) : c = len := by
  have most := trailing.most
  rcases trailing.stops with whole | ⟨k, behind, next, other⟩
  · omega
  · by_contra short
    exact other (flat k (by omega) (by omega))

/-- The counter is full exactly when the first stretch has come to its end. -/
theorem Trailing.full (trailing : Trailing x v len n m len) : First x v len n (m - len) := by
  have inside := trailing.inside
  refine ⟨by omega, ?_, ?_⟩
  · rw [Nat.sub_add_cancel (by omega)]
    exact trailing.flat
  · intro y from_n less
    exact trailing.none y from_n (by omega)

theorem Trailing.next (trailing : Trailing x v len n m c) (short : c ≠ len) :
    Trailing x v len n (m + 1) (if x m = v then c + 1 else 0) := by
  have most := trailing.most
  have inside := trailing.inside
  have none : ∀ y, n ≤ y → y + len < m + 1 → ¬ Flat x v y (y + len) := by
    intro y from_n less flat
    rcases Nat.lt_succ_iff_lt_or_eq.mp less with old | ends
    · exact trailing.none y from_n old flat
    · exact short (trailing.short from_n ends flat)
  split
  case isTrue here =>
      refine ⟨by omega, by omega, ?_, ?_, none⟩
      · rw [Nat.add_sub_add_right]
        exact trailing.flat.snoc here
      · rw [Nat.add_sub_add_right]
        exact trailing.stops
  case isFalse other => exact ⟨len.zero_le, by omega, flat_self, .inr ⟨m, by omega, rfl, other⟩, none⟩

/-! ### The counter that stays at its end -/

theorem lasting_start : Lasting x v len 0 0 :=
  ⟨len.zero_le, le_rfl, flat_self, .inr (.inl rfl)⟩

theorem Lasting.next (lasting : Lasting x v len m c) :
    Lasting x v len (m + 1) (if x m = v then min (c + 1) len else 0) := by
  obtain ⟨most, inside, flat, stops⟩ := lasting
  split
  case isTrue here =>
      refine ⟨Nat.min_le_right _ _, by omega, (flat.snoc here).part (by omega) le_rfl, ?_⟩
      rcases stops with full | whole | other
      · exact .inl (by omega)
      · by_cases small : c + 1 ≤ len
        · exact .inr (.inl (by omega))
        · exact .inl (by omega)
      · by_cases small : c + 1 ≤ len
        · refine .inr (.inr ?_)
          rwa [show m + 1 - min (c + 1) len - 1 = m - c - 1 by omega]
        · exact .inl (by omega)
  case isFalse other => exact ⟨len.zero_le, (m + 1).zero_le, flat_self, .inr (.inr other)⟩

/-- A sample that finds the counter full ends a stretch that is longer by one. -/
theorem Lasting.full_iff (lasting : Lasting x v len m c) :
    x m = v ∧ c = len ↔ len ≤ m ∧ Flat x v (m - len) (m + 1) := by
  obtain ⟨most, inside, flat, stops⟩ := lasting
  constructor
  · rintro ⟨here, rfl⟩
    exact ⟨inside, flat.snoc here⟩
  · rintro ⟨room, flat⟩
    refine ⟨flat m (by omega) (by omega), ?_⟩
    by_contra short
    rcases stops with full | whole | other
    · exact short full
    · omega
    · exact other (flat _ (by omega) (by omega))

end WrCores.Samples
