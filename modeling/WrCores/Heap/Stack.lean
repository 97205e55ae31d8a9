import Mathlib.Data.List.Basic
import Mathlib.Data.Fintype.Card

/-!
A stack in an array: it grows from the last cell down to the first, and its top is a number. And the items of
a finite type that are either on a stack or in the hands of somebody.
-/

namespace WrCores.Heap

variable {Item : Type*}

/-- The cells from `top` up to `size`, the newest first. -/
def above (cells : Nat → Item) (size top : Nat) : List Item := (List.range' top (size - top)).map cells

theorem length_above (cells : Nat → Item) (size top : Nat) : (above cells size top).length = size - top := by
  rw [above, List.length_map, List.length_range']

theorem above_empty (cells : Nat → Item) (size : Nat) : above cells size size = [] := by
  rw [above, Nat.sub_self]
  rfl

theorem above_congr {cells cells' : Nat → Item} {size top : Nat}
    (same : ∀ a, top ≤ a → a < size → cells' a = cells a) : above cells' size top = above cells size top := by
  apply List.map_congr_left
  intro a member
  rw [List.mem_range'_1] at member
  exact same a member.1 (by omega)

theorem above_pop (cells : Nat → Item) {size top : Nat} (room : top < size) :
    above cells size top = cells top :: above cells size (top + 1) := by
  obtain ⟨count, rfl⟩ : ∃ count, size = top + (count + 1) := ⟨size - top - 1, by omega⟩
  have more : top + (count + 1) - top = count + 1 := by omega
  have rest : top + (count + 1) - (top + 1) = count := by omega
  rw [above, above, more, rest, List.range'_succ, List.map_cons]

theorem above_push {cells cells' : Nat → Item} {size top : Nat} (room : top < size)
    (same : ∀ a, top < a → a < size → cells' a = cells a) :
    above cells' size top = cells' top :: above cells size (top + 1) := by
  rw [above_pop cells' room, above_congr same]

/-- As many items as there are, none of them twice: everything that is not on the stack is in a hand. -/
theorem mem_iff_of_full [Fintype Item] [DecidableEq Item] {stack hands : List Item}
    (once : (stack ++ hands).Nodup) (full : stack.length + hands.length = Fintype.card Item) (x : Item) :
    x ∈ stack ↔ x ∉ hands := by
  have all : x ∈ stack ++ hands := by
    have card : (stack ++ hands).toFinset.card = Fintype.card Item := by
      rw [List.toFinset_card_of_nodup once, List.length_append, full]
    rw [← List.mem_toFinset, Finset.eq_univ_of_card _ card]
    exact Finset.mem_univ x
  rw [List.nodup_append] at once
  constructor
  · intro here there
    exact once.2.2 x here x there rfl
  · intro absent
    rcases List.mem_append.mp all with here | there
    · exact here
    · exact absurd there absent

end WrCores.Heap
