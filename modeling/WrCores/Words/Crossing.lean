import WrCores.Clocked.Run
import WrCores.Words.Gray

/-!
A number crosses to another clock as its Gray code. The receiver has two registers in a row, and a third one behind the
decoder. An edge of the receiver that comes together with one of the sender finds each bit of the code old or new.
-/

namespace WrCores.Words

open Clocked Gray

variable {State Input : Type*}

structure Crosses (step : State → Input → State) (w : Nat) where
  receives : Input → Bool
  chosen : Input → BitVec w
  gray : State → BitVec w
  first : State → BitVec w
  second : State → BitVec w
  shown : State → BitVec w
  samples : ∀ s i, receives i = true → first (step s i) = mixture (chosen i) (gray s) (gray (step s i)) ∧
    second (step s i) = first s ∧ shown (step s i) = decode (second s) 1 Nat.one_pos
  holds : ∀ s i, receives i = false →
    first (step s i) = first s ∧ second (step s i) = second s ∧ shown (step s i) = shown s

namespace Crosses

variable {step : State → Input → State} {w : Nat} (c : Crosses step w) {s : State} {behind : List Input}

theorem run_none (none : behind.countP c.receives = 0) : c.shown (run step s behind) = c.shown s := by
  induction behind generalizing s with
  | nil => rfl
  | cons i rest ih =>
      rw [List.countP_cons] at none
      have quiet : c.receives i = false := by
        by_contra receives
        simp [receives] at none
      rw [run_cons, ih (by omega), (c.holds s i quiet).2.2]

theorem run_one (one : behind.countP c.receives = 1) :
    c.shown (run step s behind) = decode (c.second s) 1 Nat.one_pos := by
  induction behind generalizing s with
  | nil => cases one
  | cons i rest ih =>
      rw [List.countP_cons] at one
      rw [run_cons]
      cases receives : c.receives i with
      | true => rw [c.run_none (by simpa [receives] using one), (c.samples s i receives).2.2]
      | false => rw [ih (by simpa [receives] using one), (c.holds s i receives).2.1]

theorem run_two (two : behind.countP c.receives = 2) :
    c.shown (run step s behind) = decode (c.first s) 1 Nat.one_pos := by
  induction behind generalizing s with
  | nil => cases two
  | cons i rest ih =>
      rw [List.countP_cons] at two
      rw [run_cons]
      cases receives : c.receives i with
      | true => rw [c.run_one (by simpa [receives] using two), (c.samples s i receives).2.1]
      | false => rw [ih (by simpa [receives] using two), (c.holds s i receives).1]

variable {before : List Input} {i : Input}

/-- What an edge of the receiver samples is shown two of its edges later. -/
theorem shown_sample (receives : c.receives i = true) (two : behind.countP c.receives = 2) :
    c.shown (run step s (before ++ i :: behind)) = decode (mixture (c.chosen i) (c.gray (run step s before))
      (c.gray (run step s (before ++ [i])))) 1 Nat.one_pos := by
  rw [run_append, run_cons, c.run_two two, (c.samples _ i receives).1, run_append, run_cons, run_nil]

/-- A number that goes up by `2 ^ k` or stays is shown, above bit `k`, as it was before the sample or behind it. -/
theorem shown_step {k : Nat} {old new : BitVec w} (receives : c.receives i = true)
    (two : behind.countP c.receives = 2) (before' : c.gray (run step s before) = encode old)
    (after' : c.gray (run step s (before ++ [i])) = encode new) (steps : new = old ∨ new = old + BitVec.twoPow w k) :
    let seen := c.shown (run step s (before ++ i :: behind))
    seen >>> k = old >>> k ∨ seen >>> k = new >>> k := by
  intro seen
  have sample : seen = decode (mixture (c.chosen i) (encode old) (encode new)) 1 Nat.one_pos := by
    rw [← before', ← after']
    exact c.shown_sample receives two
  rcases steps with rfl | rfl
  · left
    rw [sample, mixture_self, decode_encode]
  · rw [sample]
    exact decode_mixture_step old k (c.chosen i)

end Crosses

end WrCores.Words
