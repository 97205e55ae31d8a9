import WrCores.Clocked.Run
import WrCores.EcaLib.Table

/-!
The condition table as a map. An event has the tag of the range it lies in; the ranges of a channel and
an offset are disjoint. Where an end of the event space is touched the comparisons of `add` with
`end+1` and `begin` wrap around: `Wraps` says when that makes it overlook a range of another tag.
-/

namespace WrCores.EcaLib

open Clocked Ordered

namespace EventFilter

/-- One of these ranges gives the event this tag. -/
def Maps (entries : List (Event × EventRange)) (e : Event) (tag : Tag) : Prop :=
  ∃ p ∈ entries, p.1 ≤ e ∧ e ≤ p.2.last ∧ p.2.tag = tag

/-- The ranges are not empty and do not meet. -/
def Apart (entries : List (Event × EventRange)) : Prop :=
  (∀ p ∈ entries, p.1 ≤ p.2.last) ∧ ∀ p ∈ entries, ∀ q ∈ entries, p.1 < q.1 → p.2.last < q.1

variable {entries below above : List (Event × EventRange)} {e first last : Event} {tag : Tag}

theorem maps_cons (k : Event) (r : EventRange) :
    Maps ((k, r) :: entries) e tag ↔ (k ≤ e ∧ e ≤ r.last ∧ r.tag = tag) ∨ Maps entries e tag := by
  simp [Maps]

theorem maps_append : Maps (below ++ above) e tag ↔ Maps below e tag ∨ Maps above e tag := by
  simp only [Maps, List.mem_append]
  constructor
  · rintro ⟨p, inside | inside, rest⟩
    · exact .inl ⟨p, inside, rest⟩
    · exact .inr ⟨p, inside, rest⟩
  · rintro (⟨p, inside, rest⟩ | ⟨p, inside, rest⟩)
    · exact ⟨p, .inl inside, rest⟩
    · exact ⟨p, .inr inside, rest⟩

theorem maps_reverse : Maps entries.reverse e tag ↔ Maps entries e tag := by simp [Maps]

theorem Apart.sub (apart : Apart entries) (sub : ∀ p ∈ below, p ∈ entries) : Apart below := by
  constructor
  · intro p inside
    exact apart.1 p (sub p inside)
  · intro p first q second
    exact apart.2 p (sub p first) q (sub q second)

/-- An event lies in one range at most. -/
theorem Apart.one (ef : EventFilter) (apart : Apart ef.entries) {p q : Event × EventRange}
    (left : p ∈ ef.entries) (right : q ∈ ef.entries) (inLeft : p.1 ≤ e ∧ e ≤ p.2.last)
    (inRight : q.1 ≤ e ∧ e ≤ q.2.last) : p = q := by
  apply ef.unique left right
  by_contra differ
  rcases lt_or_gt_of_ne differ with less | less
  · have := apart.2 p left q right less
    bv_omega
  · have := apart.2 q right p left less
    bv_omega

theorem lookup_eq_some (ef : EventFilter) (apart : Apart ef.entries) :
    ef.lookup e = some tag ↔ Maps ef.entries e tag := by
  rw [lookup, Option.map_eq_some_iff]
  constructor
  · rintro ⟨p, found, rfl⟩
    have inside := List.find?_some found
    simp only [decide_eq_true_eq] at inside
    exact ⟨p, List.mem_of_find?_eq_some found, inside.1, inside.2, rfl⟩
  · rintro ⟨p, inside, low, high, rfl⟩
    have some : (ef.entries.find? fun p => p.1 ≤ e ∧ e ≤ p.2.last).isSome = true := by
      rw [List.find?_isSome]
      exact ⟨p, inside, by simpa using ⟨low, high⟩⟩
    obtain ⟨q, found⟩ := Option.isSome_iff_exists.mp some
    have holds := List.find?_some found
    simp only [decide_eq_true_eq] at holds
    have same : q = p := apart.one ef (List.mem_of_find?_eq_some found) inside holds ⟨low, high⟩
    exact ⟨q, found, by rw [same]⟩

/-! ### Adding a range -/

/-- The range that `add` merges reaches the last event. -/
def Reaches (entries : List (Event × EventRange)) (last : Event) (tag : Tag) : Prop :=
  last + 1 = 0 ∨
    ∃ q ∈ entries, q.2.last + 1 = 0 ∧ q.1 ≠ 0 ∧ (q.1 ≤ last ∨ (q.1 = last + 1 ∧ q.2.tag = tag))

/-- A range of another tag meets the new one, and `add` takes it for a neighbour: it starts with the first
event while the merged range reaches the last one, or the other way round. Where the new range covers it,
from the first event on, it is written over all the same. -/
def Wraps (entries : List (Event × EventRange)) (first last : Event) (tag : Tag) : Prop :=
  ∃ r ∈ entries, r.2.tag ≠ tag ∧ ((r.1 = 0 ∧ first ≠ 0 ∧ first ≤ r.2.last ∧ Reaches entries last tag) ∨
    (first = 0 ∧ r.2.last + 1 = 0 ∧ r.1 ≤ last ∧ ¬(r.1 = 0 ∧ last + 1 = 0)))

instance (entries : List (Event × EventRange)) (last : Event) (tag : Tag) : Decidable (Reaches entries last tag) :=
  inferInstanceAs (Decidable (_ ∨ _))

instance (entries : List (Event × EventRange)) (first last : Event) (tag : Tag) :
    Decidable (Wraps entries first last tag) :=
  inferInstanceAs (Decidable (∃ r ∈ entries, r.2.tag ≠ tag ∧ (_ ∨ _)))

/-- The range does not meet the merged one, or the new one is written over it. -/
def Clear (first last low high : Event) (p : Event × EventRange) : Prop :=
  high < p.1 ∨ p.2.last < low ∨ (p.1 = 0 ∧ first = 0 ∧ p.2.last ≤ last)

/-- The loop of `add`, with what it has merged so far. -/
structure Merging (entries : List (Event × EventRange)) (first last : Event) (tag : Tag)
    (below above : List (Event × EventRange)) (low high : Event) (out : Nat) : Prop where
  keyed : Keyed (below.reverse ++ above)
  old : ∀ p ∈ below.reverse ++ above, p ∈ entries
  clear : ∀ p ∈ above, Clear first last low high p
  wide : low ≤ first ∧ last ≤ high
  near : ∀ p ∈ below, p.1 ≤ last ∨ (p.1 = last + 1 ∧ last < p.1)
  lowered : low = first ∨ ∀ p ∈ below, p.2.last < low
  raised : high = last ∨ ∃ q ∈ entries, q.2.last = high ∧ (q.1 ≤ last ∨ (q.1 = last + 1 ∧ q.2.tag = tag)) ∧
    ∀ p ∈ below, p.2.last < q.1
  maps : out = 0 → ∀ e t, ((low ≤ e ∧ e ≤ high ∧ t = tag) ∨
      (¬(first ≤ e ∧ e ≤ last) ∧ (Maps below e t ∨ Maps above e t))) ↔
    ((first ≤ e ∧ e ≤ last ∧ t = tag) ∨ (¬(first ≤ e ∧ e ≤ last) ∧ Maps entries e t))

/-- What the loop leaves. -/
structure Merged (entries : List (Event × EventRange)) (first last : Event) (tag : Tag) (m : Merge) : Prop where
  old : ∀ p ∈ m.entries, p ∈ entries
  clear : ∀ p ∈ m.entries, Clear first last m.first m.last p
  wide : m.first ≤ first ∧ last ≤ m.last
  maps : m.out = 0 → ∀ e t, ((m.first ≤ e ∧ e ≤ m.last ∧ t = tag) ∨
      (¬(first ≤ e ∧ e ≤ last) ∧ Maps m.entries e t)) ↔
    ((first ≤ e ∧ e ≤ last ∧ t = tag) ∨ (¬(first ≤ e ∧ e ≤ last) ∧ Maps entries e t))

section Loop

variable {k low high : Event} {r : EventRange} {out : Nat}

theorem Merging.before (m : Merging entries first last tag ((k, r) :: below) above low high out) :
    (k, r) ∈ entries ∧ (∀ p ∈ below, p ∈ entries ∧ p.1 < k) ∧ ∀ p ∈ above, p ∈ entries ∧ k < p.1 := by
  have keyed := m.keyed
  have old := m.old
  simp only [List.reverse_cons, List.append_assoc, List.singleton_append] at keyed old
  obtain ⟨-, right, cross⟩ := List.pairwise_append.mp keyed
  refine ⟨old _ (by simp), ?_, ?_⟩
  · intro p inside
    exact ⟨old p (by simp [inside]), cross p (by simpa using inside) (k, r) (by simp)⟩
  · intro p inside
    exact ⟨old p (by simp [inside]), (List.pairwise_cons.mp right).1 p inside⟩

/-- The loop stops where the nearest range ends before the merged one. -/
theorem Merging.stop (m : Merging entries first last tag below above low high out)
    (short : ∀ p ∈ below, p.2.last < low) :
    Merged entries first last tag ⟨below.reverse ++ above, low, high, out⟩ := by
  constructor
  · exact m.old
  · intro p inside
    rcases List.mem_append.mp inside with inside | inside
    · exact .inr (.inl (short p (by simpa using inside)))
    · exact m.clear p inside
  · exact m.wide
  · intro none e t
    have maps := m.maps none e t
    simp only [maps_append, maps_reverse]
    exact maps

/-- Where the merged range reaches the last event, a range from the first one is clear of it. -/
theorem Merging.reached (m : Merging entries first last tag ((k, r) :: below) above low high out)
    (fits : ¬Wraps entries first last tag) (differ : r.tag ≠ tag) (zero : k = 0) (full : high + 1 = 0) :
    Clear first last low high (k, r) := by
  obtain ⟨inside, -, -⟩ := m.before
  by_cases bottom : first = 0
  · refine .inr (.inr ⟨zero, bottom, ?_⟩)
    simp only
    rcases m.raised with same | ⟨q, -, -, side, behind⟩
    · bv_omega
    · have past := behind (k, r) (by simp)
      simp only at past
      rcases side with early | ⟨touch, -⟩ <;> bv_omega
  have reaches : Reaches entries last tag := by
    rcases m.raised with same | ⟨q, known, top, side, behind⟩
    · exact .inl (by rw [← same, full])
    · have past := behind (k, r) (by simp)
      refine .inr ⟨q, known, by rw [top, full], ?_, side⟩
      intro bottom
      rw [bottom] at past
      simp only at past
      bv_omega
  have short : r.last < first := by
    by_contra meets
    exact fits ⟨(k, r), inside, differ, .inl ⟨zero, bottom, by simpa using meets, reaches⟩⟩
  refine .inr (.inl ?_)
  rcases m.lowered with same | past
  · rw [same]
    exact short
  · exact past (k, r) (by simp)

/-- A neighbour behind of another tag is left alone. -/
theorem Merging.skip (m : Merging entries first last tag ((k, r) :: below) above low high out)
    (fits : ¬Wraps entries first last tag) (differ : r.tag ≠ tag) (next : k = high + 1) :
    Merging entries first last tag below ((k, r) :: above) low high out := by
  have reorder : ((k, r) :: below).reverse ++ above = below.reverse ++ (k, r) :: above := by simp
  constructor
  · rw [← reorder]
    exact m.keyed
  · rw [← reorder]
    exact m.old
  · intro p inside
    rcases List.mem_cons.mp inside with rfl | inside
    · by_cases full : high + 1 = 0
      · exact m.reached fits differ (by rw [next, full]) full
      · left
        simp only
        bv_omega
    · exact m.clear p inside
  · exact m.wide
  · intro p inside
    exact m.near p (by simp [inside])
  · rcases m.lowered with same | past
    · exact .inl same
    · exact .inr fun p inside => past p (by simp [inside])
  · rcases m.raised with same | ⟨q, known, top, side, behind⟩
    · exact .inl same
    · exact .inr ⟨q, known, top, side, fun p inside => behind p (by simp [inside])⟩
  · intro none e t
    rw [← m.maps none e t]
    simp only [maps_cons, or_assoc, or_left_comm]

/-- The nearest range is behind the end of the new one only as its neighbour, and then of its tag. -/
theorem Merging.meets (m : Merging entries first last tag ((k, r) :: below) above low high out)
    (apart : Apart entries) (other : ¬(r.tag ≠ tag ∧ k = high + 1)) : k ≤ last ∨ (k = last + 1 ∧ r.tag = tag) := by
  obtain ⟨inside, -, -⟩ := m.before
  rcases m.near (k, r) (by simp) with early | ⟨next, late⟩
  · exact .inl early
  · right
    refine ⟨next, ?_⟩
    by_contra differ
    rcases m.raised with same | ⟨q, -, -, side, behind⟩
    · exact other ⟨differ, by rw [same]; exact next⟩
    · have past := behind (k, r) (by simp)
      have low := apart.1 (k, r) inside
      simp only at past low next late
      rcases side with early | ⟨touch, -⟩
      · bv_omega
      · bv_omega

/-- A neighbour before of another tag ends the loop. -/
theorem Merging.touches (m : Merging entries first last tag ((k, r) :: below) above low high out)
    (apart : Apart entries) (fits : ¬Wraps entries first last tag) (other : ¬(r.tag ≠ tag ∧ k = high + 1))
    (differ : r.tag ≠ tag) (next : r.last + 1 = low) : ∀ p ∈ (k, r) :: below, p.2.last < low := by
  obtain ⟨inside, before, -⟩ := m.before
  have short : r.last < low := by
    by_cases zero : low = 0
    · exfalso
      have full : r.last + 1 = 0 := by rw [next, zero]
      rcases m.lowered with same | past
      · rcases m.meets apart other with early | ⟨-, same'⟩
        · refine fits ⟨(k, r), inside, differ, .inr ⟨by rw [← same, zero], full, early, ?_⟩⟩
          rintro ⟨bottom, top⟩
          have wide := m.wide.2
          exact other ⟨differ, by simp only at bottom; bv_omega⟩
        · exact differ same'
      · have := past (k, r) (by simp)
        simp only at this
        bv_omega
    · bv_omega
  intro p found
  rcases List.mem_cons.mp found with rfl | found
  · exact short
  · obtain ⟨known, less⟩ := before p found
    have := apart.2 p known (k, r) inside less
    have := apart.1 (k, r) inside
    simp only at *
    bv_omega

/-- The union of two ranges that meet or touch. -/
theorem joined {low high k last : Event} (start : low - 1 ≤ last ∨ low = 0)
    (stop : k ≤ high ∨ (k = high + 1 ∧ high < k))
    (ordered : k ≤ last) (own : low ≤ high) :
    ((if k < low then k else low) ≤ e ∧ e ≤ (if last > high then last else high)) ↔
      (low ≤ e ∧ e ≤ high) ∨ (k ≤ e ∧ e ≤ last) := by
  by_cases before : k < low
  · by_cases behind : last > high
    · rw [if_pos before, if_pos behind]
      bv_omega
    · rw [if_pos before, if_neg behind]
      bv_omega
  · by_cases behind : last > high
    · rw [if_neg before, if_pos behind]
      bv_omega
    · rw [if_neg before, if_neg behind]
      bv_omega

/-- A range that meets the merged one, or touches it with the same tag, goes into it. -/
theorem Merging.merge (m : Merging entries first last tag ((k, r) :: below) above low high out)
    (apart : Apart entries) (ordered : first ≤ last) (start : low - 1 ≤ r.last ∨ low = 0)
    (other : ¬(r.tag ≠ tag ∧ k = high + 1)) :
    Merging entries first last tag below above (if k < low then k else low) (if r.last > high then r.last else high)
      (if r.tag ≠ tag then out + 1 else out) := by
  obtain ⟨inside, before, behind⟩ := m.before
  have own : k ≤ r.last := apart.1 (k, r) inside
  have meets := m.meets apart other
  obtain ⟨wideLow, wideHigh⟩ := m.wide
  have stop : k ≤ high ∨ (k = high + 1 ∧ high < k) := by
    rcases m.near (k, r) (by simp) with early | ⟨next, late⟩
    · exact .inl (le_trans early wideHigh)
    · simp only at next late
      by_cases same : high = last
      · rw [same]
        exact .inr ⟨next, late⟩
      · left
        bv_omega
  constructor
  · exact List.Pairwise.sublist (by simp) m.keyed
  · intro p found
    apply m.old p
    rcases List.mem_append.mp found with found | found
    · simp [List.mem_reverse.mp found]
    · simp [found]
  · intro p found
    obtain ⟨known, more⟩ := behind p found
    have later := apart.2 (k, r) inside p known more
    have self := apart.1 p known
    simp only at later
    rcases m.clear p found with past | under | ⟨zero, -, -⟩
    · left
      split
      · exact later
      · exact past
    · exfalso
      bv_omega
    · exfalso
      bv_omega
  · constructor
    · split
      · rename_i less
        exact le_trans less.le wideLow
      · exact wideLow
    · split
      · rename_i more
        exact le_trans wideHigh more.le
      · exact wideHigh
  · intro p found
    exact m.near p (by simp [found])
  · split
    · right
      intro p found
      obtain ⟨known, less⟩ := before p found
      exact apart.2 p known (k, r) inside less
    · rcases m.lowered with same | past
      · exact .inl same
      · exact .inr fun p found => past p (by simp [found])
  · split
    · right
      refine ⟨(k, r), inside, rfl, meets, ?_⟩
      intro p found
      obtain ⟨known, less⟩ := before p found
      exact apart.2 p known (k, r) inside less
    · rcases m.raised with same | ⟨q, known, top, side, past⟩
      · exact .inl same
      · exact .inr ⟨q, known, top, side, fun p found => past p (by simp [found])⟩
  · intro none e t
    have same : r.tag = tag := by
      by_contra differ
      rw [if_pos differ] at none
      simp at none
    rw [if_neg (by simp [same])] at none
    rw [← m.maps none e t]
    have union := joined (e := e) start stop own (le_trans wideLow (le_trans ordered wideHigh))
    have within : first ≤ e ∧ e ≤ last → low ≤ e ∧ e ≤ high :=
      fun ⟨left, right⟩ => ⟨le_trans wideLow left, le_trans right wideHigh⟩
    simp only [maps_cons, ← and_assoc, union, same, @eq_comm _ tag t]
    constructor
    · rintro (⟨own | late, rfl⟩ | ⟨outside, stored⟩)
      · exact .inl ⟨own, rfl⟩
      · by_cases new : first ≤ e ∧ e ≤ last
        · exact .inl ⟨within new, rfl⟩
        · exact .inr ⟨new, .inl (.inl ⟨late, rfl⟩)⟩
      · exact .inr ⟨outside, stored.imp_left .inr⟩
    · rintro (⟨own, rfl⟩ | ⟨outside, (⟨late, rfl⟩ | stored) | stored⟩)
      · exact .inl ⟨.inl own, rfl⟩
      · exact .inl ⟨.inr late, rfl⟩
      · exact .inr ⟨outside, .inl stored⟩
      · exact .inr ⟨outside, .inr stored⟩

/-- The loop of `add` as a whole. -/
theorem Merging.loop (m : Merging entries first last tag below above low high out) (apart : Apart entries)
    (ordered : first ≤ last) (fits : ¬Wraps entries first last tag) :
    Merged entries first last tag (mergeLoop tag below above low high out) := by
  induction below generalizing above low high out with
  | nil => exact m.stop (by simp)
  | cons entry below ih =>
      obtain ⟨k, r⟩ := entry
      obtain ⟨inside, before, -⟩ := m.before
      rw [mergeLoop]
      split
      · rename_i start
        split
        · rename_i neighbour
          exact ih (m.skip fits neighbour.1 neighbour.2)
        · rename_i other
          split
          · rename_i neighbour
            exact m.stop (m.touches apart fits other neighbour.1 neighbour.2)
          · exact ih (m.merge apart ordered start other)
      · rename_i far
        apply m.stop
        intro p found
        have short : r.last < low := by
          rw [not_or] at far
          bv_omega
        rcases List.mem_cons.mp found with rfl | found
        · exact short
        · obtain ⟨known, less⟩ := before p found
          have := apart.2 p known (k, r) inside less
          have := apart.1 (k, r) inside
          simp only at *
          bv_omega

/-- Where no range of another tag meets the new one there is no conflict. -/
theorem Merging.free (m : Merging entries first last tag below above low high out) (apart : Apart entries)
    (ordered : first ≤ last) (fits : ¬Wraps entries first last tag)
    (clean : ∀ p ∈ entries, last < p.1 ∨ p.2.last < first ∨ p.2.tag = tag) :
    (mergeLoop tag below above low high out).out = out := by
  induction below generalizing above low high out with
  | nil => rfl
  | cons entry below ih =>
      obtain ⟨k, r⟩ := entry
      obtain ⟨inside, -, -⟩ := m.before
      rw [mergeLoop]
      split
      · rename_i start
        split
        · rename_i neighbour
          exact ih (m.skip fits neighbour.1 neighbour.2)
        · rename_i other
          split
          · rfl
          · rename_i nearer
            have same : r.tag = tag := by
              rcases m.meets apart other with early | ⟨-, same⟩
              · rcases clean (k, r) inside with late | short | same
                · exact absurd early (not_le.mpr late)
                · by_contra differ
                  apply nearer
                  refine ⟨differ, ?_⟩
                  have under : r.last < low := by
                    rcases m.lowered with same | past
                    · rw [same]
                      exact short
                    · exact past (k, r) (by simp)
                  rcases start with start | start
                  · bv_omega
                  · bv_omega
                · exact same
              · exact same
            have step := m.merge apart ordered start other
            rw [if_neg (not_not_intro same)] at step ⊢
            exact ih step
      · rfl

end Loop

theorem wraps_clean (clean : ∀ p ∈ entries, last < p.1 ∨ p.2.last < first ∨ p.2.tag = tag) :
    ¬Wraps entries first last tag := by
  rintro ⟨r, inside, differ, rest⟩
  have away : last < r.1 ∨ r.2.last < first := by
    rcases clean r inside with late | short | same
    · exact .inl late
    · exact .inr short
    · exact absurd same differ
  rcases rest with ⟨zero, -, meets, -⟩ | ⟨bottom, -, early, -⟩
  · rcases away with late | short
    · rw [zero] at late
      bv_omega
    · exact absurd meets (not_le.mpr short)
  · rcases away with late | short
    · exact absurd early (not_le.mpr late)
    · rw [bottom] at short
      bv_omega

theorem Merging.start (ef : EventFilter) (first last : Event) (tag : Tag) :
    Merging ef.entries first last tag (ef.touching last).reverse (ef.beyond last) first last 0 := by
  constructor
  · rw [List.reverse_reverse, touching_beyond]
    exact ef.keyed
  · rw [List.reverse_reverse, touching_beyond]
    exact fun p inside => inside
  · intro p inside
    unfold beyond at inside
    split at inside
    · simp at inside
    · have past := OrderedMap.lt_above ef (last + 1) p inside
      left
      bv_omega
  · exact ⟨le_rfl, le_rfl⟩
  · intro p inside
    rw [List.mem_reverse] at inside
    unfold touching at inside
    split at inside
    · left
      bv_omega
    · have early := OrderedMap.upTo_le ef (last + 1) p inside
      bv_omega
  · exact .inl rfl
  · exact .inl rfl
  · intro _ e t
    rw [maps_reverse, ← maps_append, touching_beyond]

/-- The map after a range was added. -/
def Added (before : Event → Tag → Prop) (first last : Event) (tag : Tag) (e : Event) (t : Tag) : Prop :=
  (first ≤ e ∧ e ≤ last ∧ t = tag) ∨ (¬(first ≤ e ∧ e ≤ last) ∧ before e t)

section Adding

variable (ef : EventFilter) (apart : Apart ef.entries) (ordered : first ≤ last)
  (fits : ¬Wraps ef.entries first last tag)

include apart ordered fits

theorem merged_spec : Merged ef.entries first last tag (ef.merged first last tag) :=
  (Merging.start ef first last tag).loop apart ordered fits

/-- The entry that `add` writes replaces a range it covers, and is clear of the others. -/
theorem merged_clear (p : Event × EventRange) (inside : p ∈ (ef.merged first last tag).entries)
    (other : p.1 ≠ (ef.merged first last tag).first) :
    (ef.merged first last tag).last < p.1 ∨ p.2.last < (ef.merged first last tag).first := by
  have spec := merged_spec ef apart ordered fits
  rcases spec.clear p inside with past | under | ⟨zero, bottom, -⟩
  · exact .inl past
  · exact .inr under
  · exfalso
    have wide := spec.wide.1
    apply other
    bv_omega

theorem add_apart : Apart (ef.add first last tag).1.entries := by
  have spec := merged_spec ef apart ordered fits
  have clear := merged_clear ef apart ordered fits
  have wide : (ef.merged first last tag).first ≤ (ef.merged first last tag).last :=
    le_trans spec.wide.1 (le_trans ordered spec.wide.2)
  constructor
  · intro p inside
    rcases (OrderedMap.mem_set _ _ _ p).mp inside with rfl | ⟨inside, -⟩
    · exact wide
    · exact apart.1 p (spec.old p inside)
  · intro p left q right less
    rcases (OrderedMap.mem_set _ _ _ p).mp left with rfl | ⟨left, other⟩
    · rcases (OrderedMap.mem_set _ _ _ q).mp right with rfl | ⟨right, other⟩
      · exact absurd less (lt_irrefl _)
      · have own := apart.1 q (spec.old q right)
        rcases clear q right other with past | under
        · exact past
        · simp only at less
          bv_omega
    · rcases (OrderedMap.mem_set _ _ _ q).mp right with rfl | ⟨right, -⟩
      · rcases clear p left other with past | under
        · simp only at less
          bv_omega
        · exact under
      · exact apart.2 p (spec.old p left) q (spec.old q right) less

theorem add_maps (none : (ef.add first last tag).2 = 0) (e : Event) (t : Tag) :
    Maps (ef.add first last tag).1.entries e t ↔ Added (Maps ef.entries) first last tag e t := by
  have spec := merged_spec ef apart ordered fits
  have wide := spec.wide
  rw [Added, ← spec.maps none e t]
  constructor
  · rintro ⟨p, inside, low, high, rfl⟩
    rcases (OrderedMap.mem_set _ _ _ p).mp inside with rfl | ⟨inside, other⟩
    · exact .inl ⟨low, high, rfl⟩
    · right
      refine ⟨?_, p, inside, low, high, rfl⟩
      rcases merged_clear ef apart ordered fits p inside other with past | under
      · bv_omega
      · bv_omega
  · rintro (⟨low, high, rfl⟩ | ⟨outside, p, inside, low, high, rfl⟩)
    · exact ⟨_, (OrderedMap.mem_set _ _ _ _).mpr (.inl rfl), low, high, rfl⟩
    · refine ⟨p, (OrderedMap.mem_set _ _ _ _).mpr (.inr ⟨inside, ?_⟩), low, high, rfl⟩
      intro same
      rcases spec.clear p inside with past | under | ⟨zero, bottom, short⟩
      · bv_omega
      · bv_omega
      · bv_omega

omit fits in
theorem add_free (clean : ∀ p ∈ ef.entries, last < p.1 ∨ p.2.last < first ∨ p.2.tag = tag) :
    (ef.add first last tag).2 = 0 :=
  (Merging.start ef first last tag).free apart ordered (wraps_clean clean) clean

end Adding

/-! ### Removing a range -/

/-- The range meets the one that is removed. -/
def meets (first last : Event) (p : Event × EventRange) : Bool := p.1 ≤ last ∧ first ≤ p.2.last

/-- The loop of `remove`. -/
structure Cutting (entries : List (Event × EventRange)) (first last : Event)
    (below above : List (Event × EventRange)) (out : Nat) : Prop where
  keyed : Keyed (below.reverse ++ above)
  early : ∀ p ∈ below, p.1 ≤ last
  apart : Apart (below.reverse ++ above)
  maps : ∀ e t, (Maps below e t ∧ ¬(first ≤ e ∧ e ≤ last)) ∨ Maps above e t ↔
    Maps entries e t ∧ ¬(first ≤ e ∧ e ≤ last)
  count : out + below.countP (meets first last) = entries.countP (meets first last)

section Cutting

variable {k : Event} {r : EventRange} {out : Nat}

/-- An entry that stays of a range that is cut. -/
def Piece (first last k : Event) (r : EventRange) (p : Event × EventRange) : Prop :=
  (k < first ∧ p = (k, { r with last := first - 1 })) ∨ (last < r.last ∧ p = (last + 1, r))

theorem mem_pieces (keyed : Keyed above) (behind : ∀ p ∈ above, r.last < p.1) (p : Event × EventRange) :
    p ∈ pieces first last k r above ↔ Piece first last k r p ∨ p ∈ above := by
  have later (cut : last < r.last) : p ∈ insertEntry (last + 1) r above ↔ p = (last + 1, r) ∨ p ∈ above := by
    rw [mem_insertEntry _ _ _ keyed]
    constructor
    · rintro (rfl | ⟨inside, -⟩)
      · exact .inl rfl
      · exact .inr inside
    · rintro (rfl | inside)
      · exact .inl rfl
      · refine .inr ⟨inside, ?_⟩
        have past := behind p inside
        bv_omega
  simp only [pieces, Piece]
  by_cases left : k < first
  · by_cases right : last < r.last
    · simp only [left, right, if_true, List.mem_cons, later right, true_and, or_assoc]
    · simp [left, right]
  · by_cases right : last < r.last
    · simp only [left, right, if_true, if_false, later right, true_and, false_and, false_or]
    · simp [left, right]

variable (c : Cutting entries first last ((k, r) :: below) above out)

include c

theorem Cutting.split : Keyed above ∧ (∀ p ∈ above, r.last < p.1) ∧ (∀ p ∈ below, p.2.last < k) ∧
    k ≤ r.last ∧ k ≤ last := by
  have keyed := c.keyed
  have apart := c.apart
  simp only [List.reverse_cons, List.append_assoc, List.singleton_append] at keyed apart
  obtain ⟨-, right, cross⟩ := List.pairwise_append.mp keyed
  obtain ⟨low, tail⟩ := List.pairwise_cons.mp right
  refine ⟨tail, ?_, ?_, apart.1 (k, r) (by simp), c.early (k, r) (by simp)⟩
  · intro p inside
    exact apart.2 (k, r) (by simp) p (by simp [inside]) (low p inside)
  · intro p inside
    exact apart.2 p (by simp [inside]) (k, r) (by simp) (cross p (by simpa using inside) (k, r) (by simp))

/-- The events of the pieces are those of the range outside the cut. -/
theorem Cutting.maps_pieces (ordered : first ≤ last) (met : first ≤ r.last) (e : Event) (t : Tag) :
    Maps (pieces first last k r above) e t ↔
      ((k ≤ e ∧ e ≤ r.last ∧ r.tag = t) ∧ ¬(first ≤ e ∧ e ≤ last)) ∨ Maps above e t := by
  obtain ⟨keyed, behind, -, own, early⟩ := c.split
  constructor
  · rintro ⟨p, inside, low, high, rfl⟩
    rcases (mem_pieces keyed behind p).mp inside with (⟨left, rfl⟩ | ⟨right, rfl⟩) | inside
    · left
      simp only at low high ⊢
      refine ⟨⟨low, ?_, trivial⟩, ?_⟩ <;> bv_omega
    · left
      simp only at low high ⊢
      refine ⟨⟨?_, high, trivial⟩, ?_⟩ <;> bv_omega
    · exact .inr ⟨p, inside, low, high, rfl⟩
  · rintro (⟨⟨low, high, rfl⟩, outside⟩ | ⟨p, inside, rest⟩)
    · by_cases left : e < first
      · refine ⟨(k, { r with last := first - 1 }), (mem_pieces keyed behind _).mpr (.inl (.inl ⟨?_, rfl⟩)), low, ?_,
        rfl⟩
        · bv_omega
        · simp only
          bv_omega
      · refine ⟨(last + 1, r), (mem_pieces keyed behind _).mpr (.inl (.inr ⟨?_, rfl⟩)), ?_, high, rfl⟩
        · bv_omega
        · simp only
          bv_omega
    · exact ⟨p, (mem_pieces keyed behind p).mpr (.inr inside), rest⟩

theorem Cutting.apart_pieces (ordered : first ≤ last) (met : first ≤ r.last) :
    Apart (below.reverse ++ pieces first last k r above) := by
  obtain ⟨keyed, behind, before, own, early⟩ := c.split
  have apart := c.apart
  -- a piece lies in the range it comes from
  have piece (p : Event × EventRange) (cut : Piece first last k r p) :
      k ≤ p.1 ∧ p.1 ≤ p.2.last ∧ p.2.last ≤ r.last ∧
        ((p.1 = k ∧ p.2.last < first) ∨ (p.1 = last + 1 ∧ last < p.1)) := by
    rcases cut with ⟨left, rfl⟩ | ⟨right, rfl⟩
    · refine ⟨le_rfl, ?_, ?_, .inl ⟨rfl, ?_⟩⟩ <;> simp only <;> bv_omega
    · refine ⟨?_, ?_, le_rfl, .inr ⟨rfl, ?_⟩⟩ <;> simp only <;> bv_omega
  have place (p : Event × EventRange) (inside : p ∈ below.reverse ++ pieces first last k r above) :
      Piece first last k r p ∨ (p ∈ ((k, r) :: below).reverse ++ above ∧ (p.2.last < k ∨ r.last < p.1)) := by
    rcases List.mem_append.mp inside with inside | inside
    · rw [List.mem_reverse] at inside
      exact .inr ⟨by simp [inside], .inl (before p inside)⟩
    · rcases (mem_pieces keyed behind p).mp inside with cut | inside
      · exact .inl cut
      · exact .inr ⟨by simp [inside], .inr (behind p inside)⟩
  constructor
  · intro p inside
    rcases place p inside with cut | ⟨old, -⟩
    · exact (piece p cut).2.1
    · exact apart.1 p old
  · intro p left q right less
    rcases place p left with cutLeft | ⟨oldLeft, sideLeft⟩
    · have inLeft := piece p cutLeft
      rcases place q right with cutRight | ⟨oldRight, sideRight⟩
      · have inRight := piece q cutRight
        rcases inLeft.2.2.2 with ⟨start, short⟩ | ⟨start, past⟩ <;>
          rcases inRight.2.2.2 with ⟨start', short'⟩ | ⟨start', past'⟩ <;> bv_omega
      · have := apart.1 q oldRight
        bv_omega
    · rcases place q right with cutRight | ⟨oldRight, -⟩
      · have inRight := piece q cutRight
        have := apart.1 p oldLeft
        bv_omega
      · exact apart.2 p oldLeft q oldRight less

/-- A range that is met is cut. -/
theorem Cutting.met (ordered : first ≤ last) (met : first ≤ r.last) :
    Cutting entries first last below (pieces first last k r above) (out + 1) := by
  obtain ⟨-, -, -, own, early⟩ := c.split
  constructor
  · exact keyed_pieces first last k r below above c.keyed early
  · intro p inside
    exact c.early p (by simp [inside])
  · exact c.apart_pieces ordered met
  · intro e t
    rw [← c.maps e t, c.maps_pieces ordered met, maps_cons]
    simp only [or_and_right, or_assoc, or_left_comm]
  · have hit : meets first last (k, r) = true := by simp [meets, early, met]
    have count := c.count
    rw [List.countP_cons_of_pos hit] at count
    omega

omit c in
/-- The loop ends with a range that stands before the cut. -/
theorem Cutting.stop (c : Cutting entries first last below above out) (short : ∀ p ∈ below, p.2.last < first) :
    Apart (below.reverse ++ above) ∧ (∀ e t, Maps (below.reverse ++ above) e t ↔
      Maps entries e t ∧ ¬(first ≤ e ∧ e ≤ last)) ∧ out = entries.countP (meets first last) := by
  refine ⟨c.apart, ?_, ?_⟩
  · intro e t
    rw [← c.maps e t, maps_append, maps_reverse]
    have clear : Maps below e t → ¬(first ≤ e ∧ e ≤ last) := by
      rintro ⟨p, inside, -, high, -⟩
      have := short p inside
      bv_omega
    rw [and_iff_left_of_imp clear]
  · have none : below.countP (meets first last) = 0 := by
      rw [List.countP_eq_zero]
      intro p inside
      simp [meets, short p inside]
    rw [← c.count, none, Nat.add_zero]

omit c in
theorem Cutting.loop (c : Cutting entries first last below above out) (ordered : first ≤ last) :
    Apart (cutLoop first last below above out).1 ∧ (∀ e t, Maps (cutLoop first last below above out).1 e t ↔
      Maps entries e t ∧ ¬(first ≤ e ∧ e ≤ last)) ∧
    (cutLoop first last below above out).2 = entries.countP (meets first last) := by
  induction below generalizing above out with
  | nil => exact c.stop (by simp)
  | cons entry below ih =>
      obtain ⟨k, r⟩ := entry
      obtain ⟨-, -, before, own, early⟩ := c.split
      rw [cutLoop]
      split
      · rename_i met
        exact ih (c.met ordered met)
      · rename_i far
        apply c.stop
        intro p inside
        rcases List.mem_cons.mp inside with rfl | inside
        · simpa using far
        · have := before p inside
          simp only [not_le] at far
          bv_omega

end Cutting

theorem Cutting.start (ef : EventFilter) (apart : Apart ef.entries) (first last : Event) :
    Cutting ef.entries first last (ef.upTo last).reverse (OrderedMap.above ef last) 0 := by
  have late := OrderedMap.lt_above ef last
  constructor
  · rw [List.reverse_reverse, OrderedMap.upTo_above]
    exact ef.keyed
  · intro p inside
    exact OrderedMap.upTo_le ef last p (by simpa using inside)
  · rw [List.reverse_reverse, OrderedMap.upTo_above]
    exact apart
  · intro e t
    have clear : Maps (OrderedMap.above ef last) e t → ¬(first ≤ e ∧ e ≤ last) := by
      rintro ⟨p, inside, low, -, -⟩
      have := late p inside
      bv_omega
    rw [← ef.upTo_above last, maps_append, maps_reverse, or_and_right, and_iff_left_of_imp clear]
  · have none : (OrderedMap.above ef last).countP (meets first last) = 0 := by
      rw [List.countP_eq_zero]
      intro p inside
      have past := late p inside
      simp only [meets, decide_eq_true_eq]
      bv_omega
    have whole := congrArg (List.countP (meets first last)) (ef.upTo_above last)
    rw [List.countP_append, none, Nat.add_zero] at whole
    rw [List.countP_reverse, Nat.zero_add, whole]

theorem remove_spec (ef : EventFilter) (apart : Apart ef.entries) (ordered : first ≤ last) :
    Apart (ef.remove first last).1.entries ∧ (∀ e t, Maps (ef.remove first last).1.entries e t ↔
      Maps ef.entries e t ∧ ¬(first ≤ e ∧ e ≤ last)) ∧
    (ef.remove first last).2 = ef.entries.countP (meets first last) :=
  (Cutting.start ef apart first last).loop ordered

end EventFilter

end WrCores.EcaLib
