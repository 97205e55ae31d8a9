import WrCores.Ordered.Map

/-!
The condition table of lib/table.cpp: `Table::Impl` with `add` and `remove`. The iterator of their loops
moves backwards, so a loop has what is before it, the nearest entry first, and what is behind it. The
field `end` of `EventRange` is `last` here.
-/

namespace WrCores.EcaLib

open Ordered

abbrev Event := BitVec 64
abbrev Time := BitVec 64
abbrev Tag := BitVec 32
abbrev Channel := BitVec 8

structure EventRange where
  last : Event
  tag : Tag
  deriving DecidableEq, Repr

abbrev EventFilter := OrderedMap Event EventRange

structure TableEntry where
  event : Event := 0
  offset : Time := 0
  tag : Tag := 0
  channel : Channel := 0
  eventBits : BitVec 8 := 0
  deriving DecidableEq, Repr

namespace EventFilter

/-- What the loop of `add` works on. -/
structure Merge where
  entries : List (Event × EventRange)
  first : Event
  last : Event
  out : Nat

def mergeLoop (tag : Tag) : List (Event × EventRange) → List (Event × EventRange) → Event → Event → Nat → Merge
  | [], above, first, last, out => ⟨above, first, last, out⟩
  | (k, r) :: below, above, first, last, out =>
      if first - 1 ≤ r.last ∨ first = 0 then
        if r.tag ≠ tag ∧ k = last + 1 then mergeLoop tag below ((k, r) :: above) first last out
        else if r.tag ≠ tag ∧ r.last + 1 = first then ⟨((k, r) :: below).reverse ++ above, first, last, out⟩
        else
          mergeLoop tag below above (if k < first then k else first) (if r.last > last then r.last else last)
            (if r.tag ≠ tag then out + 1 else out)
      else ⟨((k, r) :: below).reverse ++ above, first, last, out⟩

theorem mergeLoop_sublist (tag : Tag) (below above : List (Event × EventRange)) (first last : Event) (out : Nat) :
    (mergeLoop tag below above first last out).entries.Sublist (below.reverse ++ above) := by
  induction below generalizing above first last out with
  | nil => exact List.Sublist.refl _
  | cons entry below ih =>
      obtain ⟨k, r⟩ := entry
      rw [mergeLoop]
      split
      · split
        · simpa using ih ((k, r) :: above) first last out
        · split
          · exact List.Sublist.refl _
          · refine (ih above _ _ _).trans ?_
            simp
      · exact List.Sublist.refl _

/-- The position of the iterator before the loop of `add`. -/
def touching (ef : EventFilter) (last : Event) : List (Event × EventRange) :=
  if last + 1 = 0 then ef.entries else ef.upTo (last + 1)

def beyond (ef : EventFilter) (last : Event) : List (Event × EventRange) :=
  if last + 1 = 0 then [] else OrderedMap.above ef (last + 1)

theorem touching_beyond (ef : EventFilter) (last : Event) : ef.touching last ++ ef.beyond last = ef.entries := by
  unfold touching beyond
  split
  · exact List.append_nil _
  · exact ef.upTo_above _

def merged (ef : EventFilter) (first last : Event) (tag : Tag) : Merge :=
  mergeLoop tag (ef.touching last).reverse (ef.beyond last) first last 0

theorem merged_keyed (ef : EventFilter) (first last : Event) (tag : Tag) :
    Keyed (ef.merged first last tag).entries := by
  have sub := mergeLoop_sublist tag (ef.touching last).reverse (ef.beyond last) first last 0
  rw [List.reverse_reverse, touching_beyond] at sub
  exact ef.keyed.sublist sub

/-- `add` of a range to the filter of its channel and offset. -/
def add (ef : EventFilter) (first last : Event) (tag : Tag) : EventFilter × Nat :=
  let m := ef.merged first last tag
  (OrderedMap.set ⟨m.entries, ef.merged_keyed first last tag⟩ m.first ⟨m.last, tag⟩, m.out)

/-- What stays of a range that is cut, in front of what is behind it: its part before the cut and its part
after it. -/
def pieces (first last k : Event) (r : EventRange) (above : List (Event × EventRange)) : List (Event × EventRange) :=
  let above := if last < r.last then insertEntry (last + 1) r above else above
  if k < first then (k, { r with last := first - 1 }) :: above else above

/-- What the loop of `remove` leaves, and its count. -/
def cutLoop (first last : Event) :
    List (Event × EventRange) → List (Event × EventRange) → Nat → List (Event × EventRange) × Nat
  | [], above, out => (above, out)
  | (k, r) :: below, above, out =>
      if first ≤ r.last then cutLoop first last below (pieces first last k r above) (out + 1)
      else (((k, r) :: below).reverse ++ above, out)

/-- The entries behind the iterator keep their order and stay above those before it. -/
theorem keyed_pieces (first last k : Event) (r : EventRange) (below above : List (Event × EventRange))
    (keyed : Keyed (((k, r) :: below).reverse ++ above)) (early : k ≤ last) :
    Keyed (below.reverse ++ pieces first last k r above) := by
  simp only [List.reverse_cons, List.append_assoc, List.singleton_append] at keyed
  obtain ⟨left, right, apart⟩ := List.pairwise_append.mp keyed
  obtain ⟨low, behind⟩ := List.pairwise_cons.mp right
  have later : Keyed (if last < r.last then insertEntry (last + 1) r above else above) ∧
      ∀ p ∈ (if last < r.last then insertEntry (last + 1) r above else above), k < p.1 := by
    split
    · rename_i cut
      refine ⟨keyed_insertEntry _ _ _ behind, ?_⟩
      intro p inside
      rcases (mem_insertEntry _ _ _ behind p).mp inside with rfl | ⟨inside, -⟩
      · simp only
        bv_omega
      · exact low p inside
    · exact ⟨behind, low⟩
  rw [pieces]
  refine List.pairwise_append.mpr ⟨left, ?_, ?_⟩
  · split
    · exact List.pairwise_cons.mpr ⟨later.2, later.1⟩
    · exact later.1
  · intro p inside q found
    have near : p.1 < k := apart p inside (k, r) (by simp)
    split at found
    · rcases List.mem_cons.mp found with rfl | found
      · exact near
      · exact lt_trans near (later.2 q found)
    · exact lt_trans near (later.2 q found)

theorem cutLoop_keyed (first last : Event) (below above : List (Event × EventRange)) (out : Nat)
    (keyed : Keyed (below.reverse ++ above)) (early : ∀ p ∈ below, p.1 ≤ last) :
    Keyed (cutLoop first last below above out).1 := by
  induction below generalizing above out with
  | nil => simpa [cutLoop] using keyed
  | cons entry below ih =>
      obtain ⟨k, r⟩ := entry
      rw [cutLoop]
      split
      · apply ih
        · exact keyed_pieces first last k r below above keyed (early (k, r) (by simp))
        · intro p inside
          exact early p (by simp [inside])
      · exact keyed

/-- What `remove` leaves of the filter, and its count. -/
def cut (ef : EventFilter) (first last : Event) : List (Event × EventRange) × Nat :=
  cutLoop first last (ef.upTo last).reverse (OrderedMap.above ef last) 0

theorem cut_keyed (ef : EventFilter) (first last : Event) : Keyed (ef.cut first last).1 := by
  apply cutLoop_keyed
  · rw [List.reverse_reverse, OrderedMap.upTo_above]
    exact ef.keyed
  · intro p inside
    exact OrderedMap.upTo_le ef last p (by simpa using inside)

/-- `remove` of a range from the filter of its channel and offset. -/
def remove (ef : EventFilter) (first last : Event) : EventFilter × Nat :=
  (⟨(ef.cut first last).1, ef.cut_keyed first last⟩, (ef.cut first last).2)

/-- The tag that the filter gives an event. -/
def lookup (ef : EventFilter) (e : Event) : Option Tag :=
  (ef.entries.find? fun p => p.1 ≤ e ∧ e ≤ p.2.last).map fun p => p.2.tag

end EventFilter

abbrev TableActions := OrderedMap Time EventFilter

/-- `Table::Impl`; the actions of the channels in turn, of which a `Channel` can name 256. -/
structure Table where
  data : List TableActions := []
  reach : data.length ≤ 256 := by decide

def ecaEncodeMask (eventBits : BitVec 8) : Event :=
  if eventBits > 64 then 0
  else if eventBits = 64 then 0
  else BitVec.allOnes 64 >>> eventBits.toNat

namespace TableEntry

def first (te : TableEntry) : Event := te.event &&& ~~~ecaEncodeMask te.eventBits

def last (te : TableEntry) : Event := te.first ||| ecaEncodeMask te.eventBits

end TableEntry

namespace Table

/-- The filter of a channel and an offset; where there is none it is empty. -/
def filter (t : Table) (channel : Channel) (offset : Time) : EventFilter :=
  ((t.data[channel.toNat]?.bind fun actions => actions.get? offset)).getD .empty

/-- `data.resize` to hold the channel. -/
def resize (data : List TableActions) (channel : Channel) : List TableActions :=
  data ++ List.replicate (channel.toNat + 1 - data.length) .empty

theorem length_resize (data : List TableActions) (channel : Channel) :
    (resize data channel).length = max data.length (channel.toNat + 1) := by
  rw [resize, List.length_append, List.length_replicate]
  omega

def setFilter (t : Table) (channel : Channel) (offset : Time) (ef : EventFilter) : Table where
  data := (resize t.data channel).modify channel.toNat fun actions => actions.set offset ef
  reach := by
    have small : channel.toNat < 2 ^ 8 := channel.isLt
    have reach := t.reach
    rw [List.length_modify, length_resize]
    omega

/-- `add(begin, end, offset, channel, tag)`, with the number of conflicts. -/
def addRange (t : Table) (first last : Event) (offset : Time) (channel : Channel) (tag : Tag) : Table × Nat :=
  if last < first then (t, 0)
  else
    let ef := (t.filter channel offset).add first last tag
    (t.setFilter channel offset ef.1, ef.2)

/-- `remove(begin, end, offset, channel)`, with the number of ranges it met. -/
def removeRange (t : Table) (first last : Event) (offset : Time) (channel : Channel) : Table × Nat :=
  if last < first then (t, 0)
  else
    match t.data[channel.toNat]?.bind fun actions => actions.get? offset with
    | none => (t, 0)
    | some ef => (t.setFilter channel offset (ef.remove first last).1, (ef.remove first last).2)

def add (t : Table) (te : TableEntry) : Table × Nat := t.addRange te.first te.last te.offset te.channel te.tag

def del (t : Table) (te : TableEntry) : Table × Nat := t.removeRange te.first te.last te.offset te.channel

/-- The map that the table stands for. -/
def lookup (t : Table) (channel : Channel) (offset : Time) (e : Event) : Option Tag :=
  (t.filter channel offset).lookup e

end Table

end WrCores.EcaLib
