import Mathlib.Order.Basic
import Mathlib.Data.List.Pairwise
import Mathlib.Data.List.TakeWhile
import Mathlib.Tactic

/-!
Finite maps in the order of their keys, as `std::map` has them: a list of entries with increasing keys.
`set` writes an entry and replaces one of the same key; `upTo` and `above` are what stands on the two
sides of `upper_bound`. Nothing here names a particular program.
-/

namespace WrCores.Ordered

instance bitVecOrder {w : Nat} : LinearOrder (BitVec w) where
  le_refl := BitVec.le_refl
  le_trans _ _ _ := BitVec.le_trans
  lt_iff_le_not_ge a b := by
    simp only [BitVec.le_def, BitVec.lt_def]
    omega
  le_antisymm _ _ := BitVec.le_antisymm
  le_total := BitVec.le_total
  toDecidableLE := inferInstance

variable {K V : Type*} [LinearOrder K]

/-- The entries stand in the order of their keys. -/
def Keyed (entries : List (K × V)) : Prop := entries.Pairwise fun p q => p.1 < q.1

/-- `operator[]` with an assignment. -/
def insertEntry (k : K) (v : V) : List (K × V) → List (K × V)
  | [] => [(k, v)]
  | (k', v') :: rest =>
      if k < k' then (k, v) :: (k', v') :: rest
      else if k' < k then (k', v') :: insertEntry k v rest
      else (k, v) :: rest

theorem mem_insertEntry (k : K) (v : V) (entries : List (K × V)) (keyed : Keyed entries) (p : K × V) :
    p ∈ insertEntry k v entries ↔ p = (k, v) ∨ (p ∈ entries ∧ p.1 ≠ k) := by
  induction entries with
  | nil => simp [insertEntry]
  | cons first rest ih =>
      obtain ⟨k', v'⟩ := first
      obtain ⟨low, keyed⟩ := List.pairwise_cons.mp keyed
      have behind (q : K × V) (inside : q ∈ rest) (before : k ≤ k') : q.1 ≠ k :=
        (lt_of_le_of_lt before (low q inside)).ne'
      rw [insertEntry]
      by_cases before : k < k'
      · rw [if_pos before]
        simp only [List.mem_cons]
        constructor
        · rintro (rfl | rfl | inside)
          · exact .inl rfl
          · exact .inr ⟨.inl rfl, before.ne'⟩
          · exact .inr ⟨.inr inside, behind p inside before.le⟩
        · rintro (rfl | ⟨inside, -⟩)
          · exact .inl rfl
          · exact .inr inside
      · by_cases after : k' < k
        · rw [if_neg before, if_pos after]
          simp only [List.mem_cons, ih keyed]
          constructor
          · rintro (rfl | rfl | ⟨inside, other⟩)
            · exact .inr ⟨.inl rfl, after.ne⟩
            · exact .inl rfl
            · exact .inr ⟨.inr inside, other⟩
          · rintro (rfl | ⟨rfl | inside, other⟩)
            · exact .inr (.inl rfl)
            · exact .inl rfl
            · exact .inr (.inr ⟨inside, other⟩)
        · have same : k' = k := le_antisymm (not_lt.mp before) (not_lt.mp after)
          subst same
          rw [if_neg before, if_neg after]
          simp only [List.mem_cons]
          constructor
          · rintro (rfl | inside)
            · exact .inl rfl
            · exact .inr ⟨.inr inside, behind p inside le_rfl⟩
          · rintro (rfl | ⟨rfl | inside, other⟩)
            · exact .inl rfl
            · exact absurd rfl other
            · exact .inr inside

theorem keyed_insertEntry (k : K) (v : V) (entries : List (K × V)) (keyed : Keyed entries) :
    Keyed (insertEntry k v entries) := by
  induction entries with
  | nil => exact List.pairwise_singleton _ _
  | cons first rest ih =>
      obtain ⟨k', v'⟩ := first
      obtain ⟨low, tail⟩ := List.pairwise_cons.mp keyed
      rw [insertEntry]
      by_cases before : k < k'
      · rw [if_pos before]
        refine List.pairwise_cons.mpr ⟨?_, keyed⟩
        intro p inside
        rcases List.mem_cons.mp inside with rfl | inside
        · exact before
        · exact lt_trans before (low p inside)
      · rw [if_neg before]
        by_cases after : k' < k
        · rw [if_pos after]
          refine List.pairwise_cons.mpr ⟨?_, ih tail⟩
          intro p inside
          rcases (mem_insertEntry k v rest tail p).mp inside with rfl | ⟨inside, -⟩
          · exact after
          · exact low p inside
        · have same : k' = k := le_antisymm (not_lt.mp before) (not_lt.mp after)
          rw [if_neg after, ← same]
          exact List.pairwise_cons.mpr ⟨low, tail⟩

structure OrderedMap (K V : Type*) [LinearOrder K] where
  entries : List (K × V)
  keyed : Keyed entries

namespace OrderedMap

instance [DecidableEq V] : DecidableEq (OrderedMap K V) := fun a b =>
  decidable_of_iff (a.entries = b.entries) (by cases a; cases b; simp)

def empty : OrderedMap K V := ⟨[], List.Pairwise.nil⟩

def set (m : OrderedMap K V) (k : K) (v : V) : OrderedMap K V :=
  ⟨insertEntry k v m.entries, keyed_insertEntry k v m.entries m.keyed⟩

def get? (m : OrderedMap K V) (k : K) : Option V := (m.entries.find? fun p => p.1 = k).map Prod.snd

/-- What stands before `upper_bound(k)`. -/
def upTo (m : OrderedMap K V) (k : K) : List (K × V) := m.entries.takeWhile fun p => p.1 ≤ k

def above (m : OrderedMap K V) (k : K) : List (K × V) := m.entries.dropWhile fun p => p.1 ≤ k

theorem upTo_above (m : OrderedMap K V) (k : K) : m.upTo k ++ m.above k = m.entries := List.takeWhile_append_dropWhile

theorem upTo_le (m : OrderedMap K V) (k : K) : ∀ p ∈ m.upTo k, p.1 ≤ k := by
  intro p inside
  simpa using List.mem_takeWhile_imp inside

theorem lt_above (m : OrderedMap K V) (k : K) : ∀ p ∈ m.above k, k < p.1 := by
  obtain ⟨entries, keyed⟩ := m
  intro p inside
  simp only [above] at inside
  induction entries with
  | nil => simp at inside
  | cons first rest ih =>
      obtain ⟨low, tail⟩ := List.pairwise_cons.mp keyed
      rw [List.dropWhile_cons] at inside
      split at inside
      · exact ih tail inside
      · rename_i later
        have past : k < first.1 := by simpa using later
        rcases List.mem_cons.mp inside with rfl | inside
        · exact past
        · exact lt_trans past (low p inside)

theorem mem_set (m : OrderedMap K V) (k : K) (v : V) (p : K × V) :
    p ∈ (m.set k v).entries ↔ p = (k, v) ∨ (p ∈ m.entries ∧ p.1 ≠ k) :=
  mem_insertEntry k v m.entries m.keyed p

/-- A key has one value. -/
theorem unique (m : OrderedMap K V) {p q : K × V} (first : p ∈ m.entries) (second : q ∈ m.entries)
    (same : p.1 = q.1) : p = q := by
  by_contra differ
  have symm : Std.Symm fun p q : K × V => p.1 ≠ q.1 := ⟨fun _ _ other => other.symm⟩
  have apart : m.entries.Pairwise fun p q => p.1 ≠ q.1 := m.keyed.imp fun less => less.ne
  exact apart.forall first second differ same

theorem get?_eq_some (m : OrderedMap K V) (k : K) (v : V) : m.get? k = some v ↔ (k, v) ∈ m.entries := by
  rw [get?, Option.map_eq_some_iff]
  constructor
  · rintro ⟨⟨k', v'⟩, found, rfl⟩
    have key := List.find?_some found
    simp only [decide_eq_true_eq] at key
    subst key
    exact List.mem_of_find?_eq_some found
  · intro inside
    have some : (m.entries.find? fun p => p.1 = k).isSome = true := by
      rw [List.find?_isSome]
      exact ⟨(k, v), inside, by simp⟩
    obtain ⟨p, found⟩ := Option.isSome_iff_exists.mp some
    have key := List.find?_some found
    simp only [decide_eq_true_eq] at key
    have same : p = (k, v) := m.unique (List.mem_of_find?_eq_some found) inside key
    exact ⟨p, found, by rw [same]⟩

theorem get?_set (m : OrderedMap K V) (k : K) (v : V) (k' : K) :
    (m.set k v).get? k' = if k' = k then some v else m.get? k' := by
  ext value
  rw [get?_eq_some, mem_set]
  by_cases same : k' = k
  · subst same
    simp [eq_comm]
  · rw [if_neg same, get?_eq_some]
    simp [same]

end OrderedMap

end WrCores.Ordered
