import Mathlib.Tactic
import WrCores.Clocked.Run

/-!
A level that every bad event raises and that falls when `need` good events have come in a row. A bad event at the level
`top` is one too many. Nothing here names a particular circuit.
-/

namespace WrCores.Clocked

inductive Grade where
  | lost
  | held (level good : Nat)
  deriving DecidableEq

namespace Grade

variable (top need : Nat)

def next : Grade → Bool → Grade
  | .lost, _ => .lost
  | .held level _, true => if level = top then .lost else .held (level + 1) 0
  | .held level good, false =>
      if level = 0 then .held 0 0 else if good + 1 = need then .held (level - 1) 0 else .held level (good + 1)

/-- Behind every bad event come `need` good ones, or the end. -/
def Isolated : List Bool → Prop
  | [] => True
  | bad :: rest => (bad = true → true ∉ rest.take need) ∧ Isolated rest

/-- Bad events with so many good ones between them. -/
def burst (gaps : List Nat) : List Bool := (gaps.flatMap fun goods => true :: List.replicate goods false) ++ [true]

variable {top need}

theorem run_lost (events : List Bool) : run (next top need) .lost events = .lost := by
  induction events with
  | nil => rfl
  | cons bad rest ih => exact ih

/-- Good events that do not make up for a bad one. -/
theorem run_goods {level : Nat} (raised : level ≠ 0) (good goods : Nat) (few : good + goods < need) :
    run (next top need) (.held level good) (List.replicate goods false) = .held level (good + goods) := by
  induction goods generalizing good with
  | zero => rfl
  | succ goods ih =>
      rw [List.replicate_succ, run_cons, next, if_neg raised, if_neg (by omega), ih (good + 1) (by omega)]
      congr 1
      omega

/-- The level that isolated events leave. -/
theorem isolated_run (positive : 0 < top) (some : 0 < need) (events : List Bool)
    (isolated : Isolated need events) (level good : Nat)
    (low : level = 0 ∨ level = 1 ∧ good < need ∧ true ∉ events.take (need - good)) :
    ∃ level' good', run (next top need) (.held level good) events = .held level' good' ∧ level' ≤ 1 := by
  induction events generalizing level good with
  | nil => exact ⟨level, good, rfl, by omega⟩
  | cons bad rest ih =>
      rw [run_cons]
      rcases low with rfl | ⟨rfl, few, quiet⟩
      · cases bad with
        | false => exact ih isolated.2 0 0 (.inl rfl)
        | true =>
            rw [next, if_neg positive.ne]
            exact ih isolated.2 1 0 (.inr ⟨rfl, some, isolated.1 rfl⟩)
      · obtain ⟨gap, size⟩ : ∃ gap, need - good = gap + 1 := ⟨need - good - 1, by omega⟩
        rw [size, List.take_succ_cons, List.mem_cons, not_or] at quiet
        obtain rfl : bad = false := by
          cases bad with
          | false => rfl
          | true => exact absurd rfl quiet.1
        rw [next, if_neg (by decide)]
        split
        · exact ih isolated.2 0 0 (.inl rfl)
        · have left : need - (good + 1) = gap := by omega
          exact ih isolated.2 1 (good + 1) (.inr ⟨rfl, by omega, left ▸ quiet.2⟩)

/-- What comes before the last of a burst climbs as high as it is long. -/
theorem climb_run (gaps : List Nat) (close : ∀ goods ∈ gaps, goods < need) (level good : Nat)
    (low : level + gaps.length ≤ top) : ∃ good', run (next top need) (.held level good)
      (gaps.flatMap fun goods => true :: List.replicate goods false) = .held (level + gaps.length) good' := by
  induction gaps generalizing level good with
  | nil => exact ⟨good, rfl⟩
  | cons goods rest ih =>
      rw [List.forall_mem_cons] at close
      rw [List.length_cons] at low
      obtain ⟨good', there⟩ := ih close.2 (level + 1) (0 + goods) (by omega)
      refine ⟨good', ?_⟩
      rw [List.flatMap_cons, List.cons_append, run_cons, next, if_neg (by omega), run_append,
        run_goods (Nat.succ_ne_zero level) 0 goods (by omega), there, List.length_cons]
      congr 1
      omega

end Grade

end WrCores.Clocked
