import Mathlib.Logic.Relator

/-!
Connections between users and resources, at most one for each. A connection is kept while its user stays, and those who
are free on both sides are connected anew. Nothing here names a particular circuit.
-/

namespace WrCores.Clocked

open Relator

variable {α β : Type*}

/-- The resource is in use, or the user has one that it keeps. -/
def Bound (old : α → β → Prop) (stays : α → Prop) (a : α) (b : β) : Prop :=
  (∃ a', old a' b ∧ stays a') ∨ (stays a ∧ ∃ b', old a b')

structure Renewed (old chosen new : α → β → Prop) (stays : α → Prop) : Prop where
  kept : ∀ a b, Bound old stays a b → (new a b ↔ old a b)
  fresh : ∀ a b, ¬ Bound old stays a b → (new a b ↔ chosen a b)

namespace Renewed

variable {old chosen new : α → β → Prop} {stays : α → Prop} {a : α} {b : β}

theorem holds (renewed : Renewed old chosen new stays) (before : old a b) (still : stays a) : new a b :=
  (renewed.kept a b (.inl ⟨a, before, still⟩)).mpr before

/-- A connection was kept, or both sides were free. -/
theorem cases (renewed : Renewed old chosen new stays) (unique : BiUnique old) :
    new a b ↔ (old a b ∧ stays a) ∨ (chosen a b ∧ ¬ Bound old stays a b) := by
  by_cases bound : Bound old stays a b
  · rw [renewed.kept a b bound]
    refine ⟨fun before => .inl ⟨before, ?_⟩, fun split => split.elim And.left fun free => absurd bound free.2⟩
    rcases bound with ⟨a', there, still⟩ | ⟨still, -⟩
    · exact unique.1 there before ▸ still
    · exact still
  · rw [renewed.fresh a b bound]
    refine ⟨fun now => .inr ⟨now, bound⟩, fun split => split.elim (fun kept => ?_) And.left⟩
    exact absurd (.inl ⟨a, kept⟩) bound

theorem biUnique (renewed : Renewed old chosen new stays) (unique : BiUnique old) (choice : BiUnique chosen) :
    BiUnique new := by
  constructor
  · intro a a' b one other
    rcases (renewed.cases unique).mp one with kept | ⟨taken, free⟩
    · rcases (renewed.cases unique).mp other with kept' | ⟨-, free'⟩
      · exact unique.1 kept.1 kept'.1
      · exact absurd (.inl ⟨a, kept⟩) free'
    · rcases (renewed.cases unique).mp other with kept' | ⟨taken', -⟩
      · exact absurd (.inl ⟨a', kept'⟩) free
      · exact choice.1 taken taken'
  · intro a b b' one other
    rcases (renewed.cases unique).mp one with kept | ⟨taken, free⟩
    · rcases (renewed.cases unique).mp other with kept' | ⟨-, free'⟩
      · exact unique.2 kept.1 kept'.1
      · exact absurd (.inr ⟨kept.2, b, kept.1⟩) free'
    · rcases (renewed.cases unique).mp other with kept' | ⟨taken', -⟩
      · exact absurd (.inr ⟨kept'.2, b', kept'.1⟩) free
      · exact choice.2 taken taken'

end Renewed

end WrCores.Clocked
