import Mathlib.Algebra.BigOperators.Group.Finset.Piecewise
import Mathlib.Algebra.Order.BigOperators.Group.Finset
import Mathlib.Data.Fintype.BigOperators

/-!
Linked records in a memory. `next` gives the record behind a record, if there is one. A `Path` leads
through records to one that need not be linked on yet, a `Chain` ends at a record with nothing behind
it. `held` counts an address in a pool and in a family of lists; where it is one everywhere, the pool
and the lists share nothing and lose nothing.
-/

namespace WrCores.Heap

variable {α : Type*}

def Path (next : α → Option α) : α → List α → α → Prop
  | p, [], q => p = q
  | p, a :: rest, q => p = a ∧ ∃ r, next a = some r ∧ Path next r rest q

def Chain (next : α → Option α) : α → List α → Prop
  | _, [] => False
  | p, a :: rest => p = a ∧ match next a with
    | none => rest = []
    | some r => Chain next r rest

variable {next : α → Option α}

theorem Path.snoc {p q r : α} {l : List α} (path : Path next p l q) (linked : next q = some r) :
    Path next p (l ++ [q]) r := by
  induction l generalizing p with
  | nil =>
      cases path
      exact ⟨rfl, r, linked, rfl⟩
  | cons a rest ih =>
      obtain ⟨same, b, here, later⟩ := path
      exact ⟨same, b, here, ih later⟩

theorem Path.close {p q : α} {l : List α} (path : Path next p l q) (last : next q = none) :
    Chain next p (l ++ [q]) := by
  induction l generalizing p with
  | nil =>
      cases path
      refine ⟨rfl, ?_⟩
      rw [last]
  | cons a rest ih =>
      obtain ⟨same, b, here, later⟩ := path
      refine ⟨same, ?_⟩
      rw [here]
      exact ih later

/-- Records that are not on a path may change. -/
theorem Path.frame {other : α → Option α} {p q : α} {l : List α} (path : Path next p l q)
    (same : ∀ a ∈ l, other a = next a) : Path other p l q := by
  induction l generalizing p with
  | nil => exact path
  | cons a rest ih =>
      obtain ⟨here, b, linked, later⟩ := path
      refine ⟨here, b, ?_, ih later fun c inside => same c (by simp [inside])⟩
      rw [same a (by simp), linked]

theorem Chain.frame {other : α → Option α} {p : α} {l : List α} (chain : Chain next p l)
    (same : ∀ a ∈ l, other a = next a) : Chain other p l := by
  induction l generalizing p with
  | nil => exact chain
  | cons a rest ih =>
      obtain ⟨here, later⟩ := chain
      refine ⟨here, ?_⟩
      rw [same a (by simp)]
      cases linked : next a with
      | none => simpa [linked] using later
      | some b =>
          rw [linked] at later
          exact ih later fun c inside => same c (by simp [inside])

theorem Chain.begins {p : α} {l : List α} (chain : Chain next p l) : ∃ rest, l = p :: rest := by
  cases l with
  | nil => exact chain.elim
  | cons a rest => exact ⟨rest, by rw [chain.1]⟩

theorem Chain.ends {p : α} {rest : List α} (chain : Chain next p (p :: rest)) (last : next p = none) :
    rest = [] := by
  have here := chain.2
  rwa [last] at here

theorem Chain.goes_on {p r : α} {rest : List α} (chain : Chain next p (p :: rest)) (linked : next p = some r) :
    Chain next r rest := by
  have here := chain.2
  rwa [linked] at here

variable {ι : Type*} [Fintype ι] [DecidableEq ι] [DecidableEq α]

def held (pool : List α) (lists : ι → List α) (a : α) : Nat := pool.count a + ∑ i, (lists i).count a

theorem sum_update (f : ι → Nat) (i : ι) (value : Nat) :
    ∑ j, Function.update f i value j + f i = ∑ j, f j + value := by
  rw [Finset.sum_update_of_mem (Finset.mem_univ i), ← Finset.add_sum_erase _ f (Finset.mem_univ i),
    Finset.sdiff_singleton_eq_erase]
  omega

theorem held_update (pool : List α) (lists : ι → List α) (i : ι) (l : List α) (a : α) :
    held pool (Function.update lists i l) a + (lists i).count a = held pool lists a + l.count a := by
  have counts : (fun j => (Function.update lists i l j).count a) =
      Function.update (fun j => (lists j).count a) i (l.count a) := by
    funext j
    by_cases same : j = i
    · subst same
      simp
    · simp [same]
  have sums := sum_update (fun j => (lists j).count a) i (l.count a)
  rw [← counts] at sums
  beta_reduce at sums
  simp only [held]
  omega

omit [DecidableEq ι] in
theorem count_le_held (pool : List α) (lists : ι → List α) (i : ι) (a : α) :
    pool.count a + (lists i).count a ≤ held pool lists a := by
  have := Finset.single_le_sum (f := fun j => (lists j).count a) (fun _ _ => Nat.zero_le _) (Finset.mem_univ i)
  simp only [held]
  omega

/-- What is in one list is in no other and not in the pool. -/
theorem held_apart {pool : List α} {lists : ι → List α} (once : ∀ a, held pool lists a = 1) {i j : ι}
    (other : i ≠ j) {a : α} (inside : a ∈ lists i) : a ∉ lists j := by
  intro also
  have here := List.count_pos_iff.2 inside
  have there := List.count_pos_iff.2 also
  have sums := held_update pool lists i [] a
  have rest := count_le_held pool (Function.update lists i []) j a
  rw [Function.update_of_ne (Ne.symm other)] at rest
  have := once a
  simp only [List.count_nil] at sums
  omega

end WrCores.Heap
