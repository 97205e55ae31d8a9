import WrCores.Clocked.Run
import WrCores.EcaLib.TableMap

/-!
Runs of `Table::add` and `Table::del`. The filters of the channels and offsets do not influence each other,
so what one call does to its filter is what it does to the table.
-/

namespace WrCores.EcaLib

open Clocked Ordered

namespace TableEntry

/-- The range of an entry, `begin` to `end`, has the event in it. -/
def Covers (te : TableEntry) (e : Event) : Prop := te.first ≤ e ∧ e ≤ te.last

instance (te : TableEntry) (e : Event) : Decidable (te.Covers e) := inferInstanceAs (Decidable (_ ∧ _))

theorem ordered (te : TableEntry) : te.first ≤ te.last := by
  rw [BitVec.le_def, last, BitVec.toNat_or]
  exact Nat.left_le_or

end TableEntry

namespace Table

/-- The actions of a channel; one that the table does not reach has none. -/
def actions (t : Table) (channel : Channel) : TableActions := t.data[channel.toNat]?.getD .empty

theorem filter_eq (t : Table) (channel : Channel) (offset : Time) :
    t.filter channel offset = ((t.actions channel).get? offset).getD .empty := by
  rw [filter, actions]
  cases t.data[channel.toNat]? with
  | none => rfl
  | some actions => rfl

theorem actions_resize (t : Table) (channel other : Channel) :
    (resize t.data channel)[other.toNat]?.getD .empty = t.actions other := by
  rw [resize, actions, List.getElem?_append]
  split
  · rfl
  · rename_i short
    rw [List.getElem?_replicate, List.getElem?_eq_none (Nat.le_of_not_lt short)]
    split <;> rfl

theorem actions_setFilter (t : Table) (channel : Channel) (offset : Time) (ef : EventFilter) (other : Channel) :
    (t.setFilter channel offset ef).actions other =
      if other = channel then (t.actions other).set offset ef else t.actions other := by
  have resized := actions_resize t channel other
  rw [actions, setFilter, List.getElem?_modify]
  by_cases same : other = channel
  · subst same
    have reaches : other.toNat < (resize t.data other).length := by
      rw [length_resize]
      omega
    rw [List.getElem?_eq_getElem reaches] at resized ⊢
    rw [← resized]
    simp
  · have apart : channel.toNat ≠ other.toNat := fun equal => same (BitVec.eq_of_toNat_eq equal).symm
    rw [if_neg same, ← resized]
    simp [apart]

theorem filter_setFilter (t : Table) (channel : Channel) (offset : Time) (ef : EventFilter) (channel' : Channel)
    (offset' : Time) : (t.setFilter channel offset ef).filter channel' offset' =
      if channel' = channel ∧ offset' = offset then ef else t.filter channel' offset' := by
  rw [filter_eq, actions_setFilter, filter_eq]
  by_cases same : channel' = channel
  · rw [if_pos same, OrderedMap.get?_set]
    by_cases here : offset' = offset
    · rw [if_pos here, if_pos ⟨same, here⟩]
      rfl
    · rw [if_neg here, if_neg fun both => here both.2]
  · rw [if_neg same, if_neg fun both => same both.1]

/-- The ranges of every channel and offset are not empty and do not meet. -/
def WellFormed (t : Table) : Prop := ∀ channel offset, EventFilter.Apart (t.filter channel offset).entries

theorem wellFormed_empty : WellFormed {} := by
  intro channel offset
  constructor <;> simp [filter, OrderedMap.empty]

theorem WellFormed.setFilter {t : Table} (formed : t.WellFormed) (channel : Channel) (offset : Time)
    {ef : EventFilter} (apart : EventFilter.Apart ef.entries) : (t.setFilter channel offset ef).WellFormed := by
  intro channel' offset'
  rw [filter_setFilter]
  split
  · exact apart
  · exact formed channel' offset'

/-- `add` takes no range of another tag for a neighbour. -/
def Adds (t : Table) (first last : Event) (offset : Time) (channel : Channel) (tag : Tag) : Prop :=
  ¬EventFilter.Wraps (t.filter channel offset).entries first last tag

instance (t : Table) (first last : Event) (offset : Time) (channel : Channel) (tag : Tag) :
    Decidable (t.Adds first last offset channel tag) := inferInstanceAs (Decidable (¬_))

section Calls

variable {t : Table} (formed : t.WellFormed) {first last : Event} (ordered : first ≤ last)

include formed ordered

theorem addRange_formed (offset : Time) (channel : Channel) (tag : Tag)
    (fits : t.Adds first last offset channel tag) : (t.addRange first last offset channel tag).1.WellFormed := by
  rw [addRange, if_neg (not_lt.mpr ordered)]
  exact formed.setFilter channel offset (EventFilter.add_apart _ (formed channel offset) ordered fits)

theorem addRange_lookup (offset : Time) (channel : Channel) (tag : Tag) (fits : t.Adds first last offset channel tag)
    (none : (t.addRange first last offset channel tag).2 = 0) (channel' : Channel) (offset' : Time) (e : Event) :
    (t.addRange first last offset channel tag).1.lookup channel' offset' e =
      if channel' = channel ∧ offset' = offset ∧ first ≤ e ∧ e ≤ last then some tag
      else t.lookup channel' offset' e := by
  have formed' := addRange_formed formed ordered offset channel tag fits
  rw [addRange, if_neg (not_lt.mpr ordered)] at none formed' ⊢
  simp only [lookup]
  ext found
  rw [EventFilter.lookup_eq_some _ (formed' channel' offset')]
  rw [filter_setFilter]
  by_cases here : channel' = channel ∧ offset' = offset
  · obtain ⟨rfl, rfl⟩ := here
    rw [if_pos ⟨rfl, rfl⟩, EventFilter.add_maps _ (formed channel' offset') ordered fits none, EventFilter.Added]
    by_cases inside : first ≤ e ∧ e ≤ last
    · simp [inside, eq_comm]
    · simp only [inside, and_false, if_false, EventFilter.lookup_eq_some _ (formed channel' offset')]
      simp only [← and_assoc, inside, false_and, not_false_iff, true_and, false_or]
  · rw [if_neg here, if_neg fun all => here ⟨all.1, all.2.1⟩,
      EventFilter.lookup_eq_some _ (formed channel' offset')]

theorem addRange_free (offset : Time) (channel : Channel) (tag : Tag)
    (clean : ∀ p ∈ (t.filter channel offset).entries, last < p.1 ∨ p.2.last < first ∨ p.2.tag = tag) :
    (t.addRange first last offset channel tag).2 = 0 := by
  rw [addRange, if_neg (not_lt.mpr ordered)]
  exact EventFilter.add_free _ (formed channel offset) ordered clean

omit formed ordered in
/-- Where there is no filter to remove from, the empty one stands for it. -/
theorem removeRange_filter (ordered : first ≤ last) (offset : Time) (channel : Channel) :
    (∀ channel' offset', (t.removeRange first last offset channel).1.filter channel' offset' =
      if channel' = channel ∧ offset' = offset then ((t.filter channel offset).remove first last).1
        else t.filter channel' offset') ∧
    (t.removeRange first last offset channel).2 = ((t.filter channel offset).remove first last).2 := by
  rw [removeRange, if_neg (not_lt.mpr ordered)]
  rw [filter]
  cases found : t.data[channel.toNat]?.bind fun actions => actions.get? offset with
  | none =>
      refine ⟨?_, rfl⟩
      intro channel' offset'
      by_cases here : channel' = channel ∧ offset' = offset
      · rw [if_pos here, here.1, here.2, filter, found]
        rfl
      · rw [if_neg here]
  | some ef => exact ⟨filter_setFilter t channel offset _, rfl⟩

theorem removeRange_formed (offset : Time) (channel : Channel) :
    (t.removeRange first last offset channel).1.WellFormed := by
  intro channel' offset'
  rw [(removeRange_filter ordered offset channel).1 channel' offset']
  split
  · exact (EventFilter.remove_spec _ (formed channel offset) ordered).1
  · exact formed channel' offset'

theorem removeRange_lookup (offset : Time) (channel channel' : Channel) (offset' : Time) (e : Event) :
    (t.removeRange first last offset channel).1.lookup channel' offset' e =
      if channel' = channel ∧ offset' = offset ∧ first ≤ e ∧ e ≤ last then none
      else t.lookup channel' offset' e := by
  have formed' := removeRange_formed formed ordered offset channel
  have spec := EventFilter.remove_spec _ (formed channel offset) ordered
  simp only [lookup]
  ext found
  rw [EventFilter.lookup_eq_some _ (formed' channel' offset'), (removeRange_filter ordered offset channel).1]
  by_cases here : channel' = channel ∧ offset' = offset
  · obtain ⟨rfl, rfl⟩ := here
    rw [if_pos ⟨rfl, rfl⟩, spec.2.1 e found]
    by_cases inside : first ≤ e ∧ e ≤ last
    · simp [inside]
    · simp [inside, EventFilter.lookup_eq_some _ (formed channel' offset')]
  · rw [if_neg here, if_neg fun all => here ⟨all.1, all.2.1⟩,
      EventFilter.lookup_eq_some _ (formed channel' offset')]

end Calls

inductive Call where
  | add (te : TableEntry)
  | del (te : TableEntry)

def call (t : Table) : Call → Table
  | .add te => (t.add te).1
  | .del te => (t.del te).1

/-- The calls on which `add` does not wrap around. -/
def Fits (t : Table) : Call → Prop
  | .add te => t.Adds te.first te.last te.offset te.channel te.tag
  | .del _ => True

instance (t : Table) (c : Call) : Decidable (t.Fits c) :=
  match c with
  | .add te => inferInstanceAs (Decidable (t.Adds te.first te.last te.offset te.channel te.tag))
  | .del _ => .isTrue trivial

theorem call_formed (t : Table) (c : Call) (formed : t.WellFormed) (fits : t.Fits c) : (t.call c).WellFormed := by
  cases c with
  | add te => exact addRange_formed formed te.ordered te.offset te.channel te.tag fits
  | del te => exact removeRange_formed formed te.ordered te.offset te.channel

/-- The table before a call is well formed, and the call changes the map in its range and nowhere else. -/
theorem table_is_map (calls : List Call) (fits : Along call Fits {} calls) :
    (run call {} calls).WellFormed ∧
    (∀ te, (run call {} calls).Fits (.add te) → ((run call {} calls).add te).2 = 0 →
      ∀ channel offset e, ((run call {} calls).add te).1.lookup channel offset e =
        if channel = te.channel ∧ offset = te.offset ∧ te.Covers e then some te.tag
        else (run call {} calls).lookup channel offset e) ∧
    (∀ te channel offset e, ((run call {} calls).del te).1.lookup channel offset e =
      if channel = te.channel ∧ offset = te.offset ∧ te.Covers e then none
      else (run call {} calls).lookup channel offset e) ∧
    ∀ te, ((run call {} calls).del te).2 =
      ((run call {} calls).filter te.channel te.offset).entries.countP (EventFilter.meets te.first te.last) := by
  have formed : (run call {} calls).WellFormed :=
    fits.invariant WellFormed call_formed wellFormed_empty
  refine ⟨formed, ?_, ?_, ?_⟩
  · intro te free none channel offset e
    exact addRange_lookup formed te.ordered te.offset te.channel te.tag free none channel offset e
  · intro te channel offset e
    exact removeRange_lookup formed te.ordered te.offset te.channel channel offset e
  · intro te
    rw [del, (removeRange_filter te.ordered te.offset te.channel).2]
    exact (EventFilter.remove_spec _ (formed te.channel te.offset) te.ordered).2.2

/-- Two neighbours of different tags, a range inside the first one taken out, and one of the same tag put back. -/
theorem table_is_map_calls :
    let calls := [.add { tag := 1, eventBits := 1 }, .add { event := 0x8000000000000000, tag := 2, eventBits := 1 },
      .del { event := 0x10, eventBits := 60 }, .add { event := 0x10, tag := 1, eventBits := 62 }]
    Along call Fits {} calls ∧ (run call {} calls).WellFormed ∧
      (run call {} calls).lookup 0 0 0x13 = some 1 ∧ (run call {} calls).lookup 0 0 0x14 = none := by
  refine ⟨by decide, (table_is_map _ (by decide)).1, by decide, by decide⟩

/-- The range of tag 1 has all events. The new one is taken for its neighbour behind the last event and
written over it: the events above it are lost. -/
theorem events_lost :
    let t := run call {} [.add { tag := 1 }]
    let te : TableEntry := { tag := 2, eventBits := 1 }
    (t.add te).2 = 0 ∧ t.lookup 0 0 0x8000000000000000 = some 1 ∧ ¬te.Covers 0x8000000000000000 ∧
      (t.add te).1.lookup 0 0 0x8000000000000000 = none ∧
    -- and the ranges of a table overlap
    ((run call {} [.add { tag := 1, eventBits := 1 }, .add { event := 0x8000000000000000, tag := 1, eventBits := 61 },
        .add { event := 0x8000000000000000, tag := 2, eventBits := 1 }]).filter 0 0).entries =
      [(0, ⟨0x8000000000000007, 1⟩), (0x8000000000000000, ⟨0xffffffffffffffff, 2⟩)] := by
  decide

end Table

end WrCores.EcaLib
