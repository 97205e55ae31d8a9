import Mathlib.Logic.Function.Basic

/-!
A memory under read-modify-write operations that come one after the other: `Serial` says that each operation reads
what is in its cell when its turn comes, `replay` is the memory they leave behind.
-/

namespace WrCores.Heap

/-- One operation: what it read and what it left in the cell. -/
structure Exchange (Address Value : Type*) where
  address : Address
  read : Value
  written : Value
  deriving DecidableEq, Repr

variable {Address Value : Type*} [DecidableEq Address]

def replay : (Address → Value) → List (Exchange Address Value) → Address → Value
  | memory, [] => memory
  | memory, op :: rest => replay (Function.update memory op.address op.written) rest

def Serial : (Address → Value) → List (Exchange Address Value) → Prop
  | _, [] => True
  | memory, op :: rest =>
      op.read = memory op.address ∧ Serial (Function.update memory op.address op.written) rest

theorem replay_append (memory : Address → Value) (first second : List (Exchange Address Value)) :
    replay memory (first ++ second) = replay (replay memory first) second := by
  induction first generalizing memory with
  | nil => rfl
  | cons op rest ih => exact ih _

theorem serial_append (memory : Address → Value) (first second : List (Exchange Address Value)) :
    Serial memory (first ++ second) ↔ Serial memory first ∧ Serial (replay memory first) second := by
  induction first generalizing memory with
  | nil => exact (and_iff_right trivial).symm
  | cons op rest ih =>
      rw [List.cons_append, Serial, Serial, replay, ih, and_assoc]

/-- Two operations on different cells do not see each other. -/
theorem serial_pair {memory : Address → Value} {a b : Exchange Address Value} (apart : a.address ≠ b.address)
    (readA : a.read = memory a.address) (readB : b.read = memory b.address) : Serial memory [a, b] :=
  ⟨readA, by rw [Function.update_of_ne apart.symm, readB], trivial⟩

end WrCores.Heap
