import Mathlib.Data.List.Sort
import Mathlib.Data.Prod.Lex
import WrCores.PowTwo.Blocks
import WrCores.EcaLib.TableRuns

/-!
`Table::Impl::get`: a range is taken apart into blocks that a mask can name. The blocks of a range have
each of its events in one of them.
-/

namespace WrCores.EcaLib

open PowTwo Ordered

def decodeLoop : Nat → Event → Nat
  | 0, _ => 0
  | count + 1, mask => if mask = 0 then count + 1 else decodeLoop count (mask >>> 1)

def ecaDecodeMask (mask : Event) : BitVec 8 := BitVec.ofNat 8 (decodeLoop 64 mask)

/-- The first loop, with the `begin` it leaves; a block is twice as large as the one before, so it
runs 65 times at most. -/
def splitLow (te : TableEntry) (last : Event) : Nat → Event → List TableEntry × Event
  | 0, first => ([], first)
  | fuel + 1, first =>
      let mask := zerosMask first
      if last ≤ first ||| mask then ([], first)
      else
        let rest := splitLow te last fuel ((first ||| mask) + 1)
        ({ te with event := first, eventBits := ecaDecodeMask mask } :: rest.1, rest.2)

/-- The second loop, with the `end` it leaves. -/
def splitHigh (te : TableEntry) (first : Event) : Nat → Event → List TableEntry × Event
  | 0, last => ([], last)
  | fuel + 1, last =>
      let mask := onesMask last
      if last - mask ≤ first then ([], last)
      else
        let start := last &&& ~~~mask
        let rest := splitHigh te first fuel (start - 1)
        ({ te with event := start, eventBits := ecaDecodeMask mask } :: rest.1, rest.2)

/-- The entries of one range. -/
def blocks (te : TableEntry) (first last : Event) : List TableEntry :=
  let low := splitLow te last 65 first
  let high := splitHigh te low.2 65 last
  low.1 ++ high.1 ++ [{ te with event := low.2, eventBits := ecaDecodeMask (high.2 - low.2) }]

def sortEventBitsOffsetChannel (a b : TableEntry) : Bool :=
  if a.event < b.event then true
  else if a.event > b.event then false
  else if a.eventBits < b.eventBits then true
  else if a.eventBits > b.eventBits then false
  else if a.offset < b.offset then true
  else if a.offset > b.offset then false
  else decide (a.channel < b.channel)

namespace Table

/-- The entries of all ranges, channel after channel. -/
def records (t : Table) : List TableEntry :=
  t.data.zipIdx.flatMap fun actions => actions.1.entries.flatMap fun filter =>
    filter.2.entries.flatMap fun range =>
      blocks { offset := filter.1, tag := range.2.tag, channel := BitVec.ofNat 8 actions.2 } range.1 range.2.last

def get (t : Table) : List TableEntry :=
  t.records.insertionSort fun a b => sortEventBitsOffsetChannel b a = false

end Table

/-! ### The blocks of a range -/

namespace TableEntry

/-- The entry is a block of `2 ^ k` events. -/
structure Aligned (te : TableEntry) (k : Nat) : Prop where
  small : k ≤ 64
  bits : te.eventBits.toNat = 64 - k
  start : 2 ^ k ∣ te.event.toNat

end TableEntry

theorem decodeLoop_eq (count k : Nat) (mask : Event) (size : mask.toNat = 2 ^ k - 1) (small : k ≤ count) :
    decodeLoop count mask = count - k := by
  induction count generalizing k mask with
  | zero => simp [decodeLoop]
  | succ count ih =>
      rw [decodeLoop]
      cases k with
      | zero =>
          have none : mask = 0 := BitVec.eq_of_toNat_eq (by simpa using size)
          rw [if_pos none]
          rfl
      | succ k =>
          have pos : 0 < 2 ^ k := Nat.two_pow_pos k
          have twice : 2 ^ (k + 1) = 2 ^ k + 2 ^ k := by rw [Nat.pow_succ]; omega
          have some : mask ≠ 0 := by
            rintro rfl
            simp only [BitVec.ofNat_eq_ofNat, BitVec.toNat_zero] at size
            omega
          have half : (mask >>> 1).toNat = 2 ^ k - 1 := by
            rw [BitVec.toNat_ushiftRight, Nat.shiftRight_eq_div_pow, size]
            omega
          rw [if_neg some, ih k _ half (by omega)]
          omega

theorem ecaDecodeMask_toNat {k : Nat} {mask : Event} (size : mask.toNat = 2 ^ k - 1) (small : k ≤ 64) :
    (ecaDecodeMask mask).toNat = 64 - k := by
  rw [ecaDecodeMask, decodeLoop_eq 64 k mask size small, BitVec.toNat_ofNat]
  omega

theorem ecaEncodeMask_toNat {k : Nat} {bits : BitVec 8} (value : bits.toNat = 64 - k) (small : k ≤ 64) :
    (ecaEncodeMask bits).toNat = 2 ^ k - 1 := by
  have low : ¬bits > 64 := by
    rw [gt_iff_lt, BitVec.lt_def]
    simp only [BitVec.ofNat_eq_ofNat, BitVec.toNat_ofNat]
    omega
  rw [ecaEncodeMask, if_neg low]
  by_cases all : bits = 64
  · have none : k = 0 := by
      rw [all] at value
      simp only [BitVec.ofNat_eq_ofNat, BitVec.toNat_ofNat] at value
      omega
    rw [if_pos all, none]
    rfl
  · rw [if_neg all, BitVec.toNat_ushiftRight, BitVec.toNat_allOnes, value]
    apply Nat.eq_of_testBit_eq
    intro i
    rw [Nat.testBit_shiftRight, Nat.testBit_two_pow_sub_one, Nat.testBit_two_pow_sub_one]
    simp only [decide_eq_decide]
    omega

namespace TableEntry

variable {te : TableEntry} {k : Nat}

theorem Aligned.end_eq (block : te.Aligned k) :
    (te.event ||| ecaEncodeMask te.eventBits).toNat = te.event.toNat + (2 ^ k - 1) :=
  or_mask_toNat (ecaEncodeMask_toNat block.bits block.small) block.start

theorem Aligned.first_eq (block : te.Aligned k) : te.first = te.event := by
  have split := and_not_add_and te.event (ecaEncodeMask te.eventBits)
  rw [and_mask_of_dvd (ecaEncodeMask_toNat block.bits block.small) block.start, BitVec.add_zero] at split
  exact split

theorem Aligned.last_eq (block : te.Aligned k) : te.last = te.event ||| ecaEncodeMask te.eventBits := by
  rw [last, block.first_eq]

theorem Aligned.covers (block : te.Aligned k) (e : Event) :
    te.Covers e ↔ te.event.toNat ≤ e.toNat ∧ e.toNat < te.event.toNat + 2 ^ k := by
  have pos : 0 < 2 ^ k := Nat.two_pow_pos k
  rw [Covers, block.first_eq, block.last_eq, BitVec.le_def, BitVec.le_def, block.end_eq]
  omega

end TableEntry

/-- What an entry of the table does to its events. -/
structure Action where
  offset : Time
  tag : Tag
  channel : Channel
  deriving DecidableEq, Repr

def TableEntry.action (te : TableEntry) : Action := ⟨te.offset, te.tag, te.channel⟩

/-- Blocks with the action of the entry that have each event from `low` on and before `high` once. -/
structure Covering (te : TableEntry) (l : List TableEntry) (low high : Nat) : Prop where
  block : ∀ b ∈ l, (∃ k, b.Aligned k) ∧ b.action = te.action
  once : ∀ e : Event, l.countP (fun b => b.Covers e) = if low ≤ e.toNat ∧ e.toNat < high then 1 else 0

theorem Covering.nil (te : TableEntry) (low : Nat) : Covering te [] low low := by
  constructor
  · simp
  · intro e
    rw [if_neg (by omega)]
    rfl

theorem Covering.single (te b : TableEntry) {k : Nat} (block : b.Aligned k) (same : b.action = te.action) :
    Covering te [b] b.event.toNat (b.event.toNat + 2 ^ k) := by
  constructor
  · intro c inside
    rw [List.mem_singleton.mp inside]
    exact ⟨⟨k, block⟩, same⟩
  · intro e
    simp [List.countP_cons, block.covers e]

theorem Covering.append {te : TableEntry} {l l' : List TableEntry} {low middle high : Nat}
    (left : Covering te l low middle) (right : Covering te l' middle high) (ordered : low ≤ middle)
    (ordered' : middle ≤ high) : Covering te (l ++ l') low high := by
  constructor
  · intro b inside
    rcases List.mem_append.mp inside with inside | inside
    · exact left.block b inside
    · exact right.block b inside
  · intro e
    rw [List.countP_append, left.once, right.once]
    split <;> split <;> split <;> omega

theorem Covering.perm {te : TableEntry} {l l' : List TableEntry} {low high : Nat} (cover : Covering te l low high)
    (perm : l'.Perm l) : Covering te l' low high := by
  constructor
  · intro b inside
    exact cover.block b (perm.mem_iff.mp inside)
  · intro e
    rw [perm.countP_eq]
    exact cover.once e

/-- Behind the last event the numbers go on where the events start again. -/
theorem succ_toNat (e : Event) : (e + 1 = 0 ∧ e.toNat + 1 = 2 ^ 64) ∨ (e + 1 ≠ 0 ∧ (e + 1).toNat = e.toNat + 1) := by
  have bound := e.isLt
  by_cases full : e.toNat + 1 = 2 ^ 64
  · left
    refine ⟨?_, full⟩
    bv_omega
  · right
    constructor <;> bv_omega

section Split

variable (te : TableEntry)

/-- The block that the first loop puts down. -/
theorem lowBlock {first : Event} {k : Nat} (lowest : Lowest first k) (size : (zerosMask first).toNat = 2 ^ k - 1) :
    ({ te with event := first, eventBits := ecaDecodeMask (zerosMask first) } : TableEntry).Aligned k :=
  ⟨lowest.inside, ecaDecodeMask_toNat size lowest.inside, lowest.whole⟩

theorem highBlock {last start : Event} {k : Nat} (size : (onesMask last).toNat = 2 ^ k - 1) (small : k ≤ 64)
    (aligned : 2 ^ k ∣ start.toNat) :
    ({ te with event := start, eventBits := ecaDecodeMask (onesMask last) } : TableEntry).Aligned k :=
  ⟨small, ecaDecodeMask_toNat size small, aligned⟩

/-- With `2 ^ k` dividing `begin` there are `64 - k` larger blocks left. -/
theorem splitLow_spec (last : Event) (fuel : Nat) (first : Event) (k : Nat) (ordered : first ≤ last)
    (aligned : 2 ^ k ∣ first.toNat) (small : k ≤ 64) (enough : 64 < fuel + k) :
    Covering te (splitLow te last fuel first).1 first.toNat (splitLow te last fuel first).2.toNat ∧
    first ≤ (splitLow te last fuel first).2 ∧ (splitLow te last fuel first).2 ≤ last ∧
    ∃ j ≤ 64, 2 ^ j ∣ (splitLow te last fuel first).2.toNat ∧
      last.toNat < (splitLow te last fuel first).2.toNat + 2 ^ j := by
  induction fuel generalizing first k with
  | zero => omega
  | succ fuel ih =>
      obtain ⟨j, lowest, size⟩ := zerosMask_lowest first
      have stop := or_mask_toNat size lowest.whole
      have pos : 0 < 2 ^ j := Nat.two_pow_pos j
      have bound := last.isLt
      rw [splitLow]
      by_cases done : last ≤ first ||| zerosMask first
      · rw [if_pos done]
        rw [BitVec.le_def, stop] at done
        refine ⟨Covering.nil te _, le_rfl, ordered, j, lowest.inside, lowest.whole, ?_⟩
        simp only
        omega
      · rw [if_neg done]
        simp only
        rw [BitVec.le_def, stop, Nat.not_le] at done
        have inner : j < 64 := by
          by_contra far
          have := Nat.pow_le_pow_right (show 0 < 2 by decide) (Nat.le_of_not_lt far)
          omega
        have some : first ≠ 0 := by
          intro none
          have := lowest.zero none
          omega
        have next : ((first ||| zerosMask first) + 1).toNat = first.toNat + 2 ^ j := by
          rw [BitVec.toNat_add, stop]
          simp only [BitVec.ofNat_eq_ofNat, BitVec.toNat_ofNat]
          omega
        have deeper := lowest.le some aligned
        obtain ⟨cover, low, high, rest⟩ := ih ((first ||| zerosMask first) + 1) (j + 1)
          (by rw [BitVec.le_def, next]; omega) (by rw [next]; exact lowest.up some) (by omega) (by omega)
        rw [BitVec.le_def, next] at low
        rw [next] at cover
        refine ⟨?_, ?_, high, rest⟩
        · exact (Covering.single te _ (lowBlock te lowest size) rfl).append cover (by simp) low
        · rw [BitVec.le_def]
          omega

theorem splitHigh_spec (first : Event) (fuel : Nat) (last : Event) (k : Nat) (ordered : first ≤ last)
    (aligned : 2 ^ k ∣ last.toNat + 1) (small : k ≤ 64) (enough : 64 < fuel + k) :
    Covering te (splitHigh te first fuel last).1 ((splitHigh te first fuel last).2.toNat + 1) (last.toNat + 1) ∧
    first ≤ (splitHigh te first fuel last).2 ∧ (splitHigh te first fuel last).2 ≤ last ∧
    ∃ j ≤ 64, 2 ^ j ∣ (splitHigh te first fuel last).2.toNat + 1 ∧
      (splitHigh te first fuel last).2.toNat < first.toNat + 2 ^ j := by
  induction fuel generalizing last k with
  | zero => omega
  | succ fuel ih =>
      obtain ⟨j, lowest, size⟩ := zerosMask_lowest (last + 1)
      rw [← onesMask_eq] at size
      have pos : 0 < 2 ^ j := Nat.two_pow_pos j
      have bound := last.isLt
      have whole : 2 ^ j ∣ last.toNat + 1 := by
        rcases succ_toNat last with ⟨none, full⟩ | ⟨-, value⟩
        · rw [lowest.zero none, full]
        · rw [← value]
          exact lowest.whole
      have fits : 2 ^ j ≤ last.toNat + 1 := Nat.le_of_dvd (by omega) whole
      have start : (last - onesMask last).toNat = last.toNat + 1 - 2 ^ j := by
        rw [BitVec.toNat_sub_of_le (by rw [BitVec.le_def, size]; omega), size]
        omega
      rw [splitHigh]
      by_cases done : last - onesMask last ≤ first
      · rw [if_pos done]
        rw [BitVec.le_def, start] at done
        refine ⟨Covering.nil te _, ordered, le_rfl, j, lowest.inside, whole, ?_⟩
        simp only
        omega
      · rw [if_neg done]
        simp only
        rw [BitVec.le_def, start, Nat.not_le] at done
        have inner : j < 64 := by
          by_contra far
          have := Nat.pow_le_pow_right (show 0 < 2 by decide) (Nat.le_of_not_lt far)
          omega
        have value : last + 1 ≠ 0 ∧ (last + 1).toNat = last.toNat + 1 := by
          rcases succ_toNat last with ⟨none, -⟩ | value
          · have := lowest.zero none
            omega
          · exact value
        have before : (last - onesMask last - 1).toNat = last.toNat - 2 ^ j := by
          bv_omega
        have deeper := lowest.le value.1 (value.2 ▸ aligned)
        have down := lowest.down value.1
        rw [value.2] at down
        have aligned' : 2 ^ j ∣ (last - onesMask last).toNat := by
          rw [start]
          exact (Nat.pow_dvd_pow 2 (Nat.le_succ j)).trans down
        have count : (last - onesMask last - 1).toNat + 1 = last.toNat + 1 - 2 ^ j := by omega
        rw [and_not_onesMask]
        obtain ⟨cover, low, high, rest⟩ := ih (last - onesMask last - 1) (j + 1)
          (by rw [BitVec.le_def, before]; omega) (by rw [count]; exact down) (by omega) (by omega)
        rw [count] at cover
        refine ⟨?_, low, ?_, rest⟩
        · have block := Covering.single te _ (highBlock te size lowest.inside aligned') rfl
          simp only [start] at block
          rw [Nat.sub_add_cancel fits] at block
          rw [BitVec.le_def, before] at high
          exact (cover.append block (by omega) (by omega)).perm (List.perm_append_singleton _ _).symm
        · rw [BitVec.le_def] at high ⊢
          omega

/-- The blocks of a range have each of its events once. -/
theorem blocks_spec (first last : Event) (ordered : first ≤ last) :
    Covering te (blocks te first last) first.toNat (last.toNat + 1) := by
  obtain ⟨cover, low, high, j, small, aligned, wide⟩ :=
    splitLow_spec te last 65 first 0 ordered (by simp) (by decide) (by decide)
  obtain ⟨cover', low', high', i, small', aligned', wide'⟩ :=
    splitHigh_spec te (splitLow te last 65 first).2 65 last 0 high (by simp) (by decide) (by decide)
  rw [blocks]
  generalize splitLow te last 65 first = lower at *
  generalize splitHigh te lower.2 65 last = upper at *
  rw [BitVec.le_def] at low high low' high'
  -- what is left between the two loops is a block itself
  have sum : lower.2.toNat + (upper.2.toNat + 1 - lower.2.toNat) = upper.2.toNat + 1 := by omega
  obtain ⟨k, side, size, whole⟩ := block_of_ends aligned (sum.symm ▸ aligned') (by omega) (by omega) (by omega)
  have mask : (upper.2 - lower.2).toNat = 2 ^ k - 1 := by
    rw [BitVec.toNat_sub_of_le (BitVec.le_def.mpr low')]
    omega
  have small : k ≤ 64 := by
    rcases side with rfl | rfl
    · exact small'
    · exact small
  have block : ({ te with event := lower.2, eventBits := ecaDecodeMask (upper.2 - lower.2) } :
    TableEntry).Aligned k :=
    ⟨small, ecaDecodeMask_toNat mask small, whole⟩
  have middle := Covering.single te _ block rfl
  simp only at middle
  rw [← size, sum] at middle
  have all := (cover.append middle low (by omega)).append cover' (by omega) (by omega)
  apply all.perm
  rw [List.append_assoc, List.append_assoc]
  exact List.Perm.append_left _ List.perm_append_comm

end Split

/-! ### The entries of a table -/

/-- Where one element at most satisfies a condition, `find?` has all that do. -/
theorem filter_eq_find? {α : Type*} (p : α → Bool) (l : List α) (one : l.Pairwise fun a b => ¬(p a ∧ p b)) :
    l.filter p = (l.find? p).toList := by
  induction l with
  | nil => rfl
  | cons a rest ih =>
      obtain ⟨single, tail⟩ := List.pairwise_cons.mp one
      by_cases here : p a
      · have none : rest.filter p = [] := by
          rw [List.filter_eq_nil_iff]
          intro b inside there
          exact single b inside ⟨here, there⟩
        simp [here, none]
      · simp [here, ih tail]

namespace Table

variable (t : Table) (e : Event)

/-- The actions of the entries that have the event. -/
def actionsAt (l : List TableEntry) (e : Event) : List Action := (l.filter fun te => te.Covers e).map (·.action)

theorem blocks_actionsAt (te : TableEntry) {first last : Event} (ordered : first ≤ last) :
    actionsAt (blocks te first last) e = if first ≤ e ∧ e ≤ last then [te.action] else [] := by
  obtain ⟨block, once⟩ := blocks_spec te first last ordered
  have count := once e
  rw [List.countP_eq_length_filter] at count
  have same : actionsAt (blocks te first last) e =
      List.replicate ((blocks te first last).filter fun b => b.Covers e).length te.action := by
    rw [List.eq_replicate_iff]
    refine ⟨by simp [actionsAt], ?_⟩
    intro a inside
    obtain ⟨b, found, rfl⟩ := List.mem_map.mp inside
    exact (block b (List.mem_of_mem_filter found)).2
  rw [same, count]
  by_cases inside : first ≤ e ∧ e ≤ last
  · rw [if_pos inside, if_pos (by rw [BitVec.le_def, BitVec.le_def] at inside; omega)]
    rfl
  · rw [if_neg inside, if_neg (by rw [BitVec.le_def, BitVec.le_def] at inside; omega)]
    rfl

/-- The actions that the filter of a channel and an offset has for the event. -/
theorem filter_actionsAt (ef : EventFilter) (apart : EventFilter.Apart ef.entries) (offset : Time)
    (channel : Channel) : actionsAt (ef.entries.flatMap fun range =>
      blocks { offset, tag := range.2.tag, channel } range.1 range.2.last) e =
        (ef.lookup e).toList.map fun tag => ⟨offset, tag, channel⟩ := by
  have one : ef.entries.Pairwise fun p q => ¬(decide (p.1 ≤ e ∧ e ≤ p.2.last) ∧ decide (q.1 ≤ e ∧ e ≤ q.2.last)) := by
    apply ef.keyed.imp_of_mem
    rintro p q left right less ⟨inLeft, inRight⟩
    simp only [decide_eq_true_eq] at inLeft inRight
    have same := apart.one ef left right inLeft inRight
    exact absurd less (same ▸ lt_irrefl _)
  calc actionsAt (ef.entries.flatMap fun range =>
        blocks { offset, tag := range.2.tag, channel } range.1 range.2.last) e
      = ef.entries.flatMap fun range => if range.1 ≤ e ∧
        e ≤ range.2.last then [⟨offset, range.2.tag, channel⟩] else [] := by
        rw [actionsAt, List.filter_flatMap, List.map_flatMap]
        apply List.flatMap_congr
        intro range inside
        exact blocks_actionsAt e _ (apart.1 range inside)
    _ = (ef.entries.filter fun p => p.1 ≤ e ∧ e ≤ p.2.last).map fun p => ⟨offset, p.2.tag, channel⟩ := by
        induction ef.entries with
        | nil => rfl
        | cons range rest ih =>
            by_cases inside : range.1 ≤ e ∧ e ≤ range.2.last
            · simp [inside, ih]
            · simp [inside, ih]
    _ = (ef.lookup e).toList.map fun tag => ⟨offset, tag, channel⟩ := by
        rw [filter_eq_find? _ _ one, EventFilter.lookup]
        cases ef.entries.find? fun p => p.1 ≤ e ∧ e ≤ p.2.last with
        | none => rfl
        | some p => rfl

variable {t}

theorem filter_of_mem {actions : TableActions} {c : Nat} {offset : Time} {ef : EventFilter}
    (channel : (actions, c) ∈ t.data.zipIdx) (filter : (offset, ef) ∈ actions.entries) :
    t.filter (BitVec.ofNat 8 c) offset = ef ∧ c < 256 := by
  have found := List.mem_zipIdx_iff_getElem?.mp channel
  have small : c < t.data.length := (List.getElem?_eq_some_iff.mp found).1
  have reach := t.reach
  have index : (BitVec.ofNat 8 c).toNat = c := by
    rw [BitVec.toNat_ofNat]
    omega
  simp only at found
  refine ⟨?_, by omega⟩
  rw [Table.filter, index, found, Option.bind_some, (actions.get?_eq_some offset ef).mpr filter]
  rfl

variable (formed : t.WellFormed)

include formed

theorem records_actionsAt : actionsAt t.records e = t.data.zipIdx.flatMap fun actions =>
    actions.1.entries.flatMap fun filter =>
      (filter.2.lookup e).toList.map fun tag => ⟨filter.1, tag, BitVec.ofNat 8 actions.2⟩ := by
  rw [records, actionsAt, List.filter_flatMap, List.map_flatMap]
  apply List.flatMap_congr
  rintro ⟨actions, c⟩ channel
  rw [List.filter_flatMap, List.map_flatMap]
  apply List.flatMap_congr
  rintro ⟨offset, ef⟩ filter
  have own := filter_of_mem channel filter
  exact filter_actionsAt e ef (own.1 ▸ formed _ offset) offset _

theorem mem_actionsAt (a : Action) :
    a ∈ actionsAt t.records e ↔ t.lookup a.channel a.offset e = some a.tag := by
  rw [records_actionsAt e formed]
  simp only [List.mem_flatMap, List.mem_map, Option.mem_toList]
  constructor
  · rintro ⟨⟨actions, c⟩, channel, ⟨offset, ef⟩, filter, tag, found, rfl⟩
    rw [lookup, (filter_of_mem channel filter).1]
    exact found
  · intro found
    rw [lookup, filter] at found
    cases channel : t.data[a.channel.toNat]? with
    | none =>
        rw [channel] at found
        simp [EventFilter.lookup, OrderedMap.empty] at found
    | some actions =>
        rw [channel, Option.bind_some] at found
        cases filter : actions.get? a.offset with
        | none =>
            rw [filter] at found
            simp [EventFilter.lookup, OrderedMap.empty] at found
        | some ef =>
            rw [filter] at found
            refine ⟨(actions, a.channel.toNat), List.mem_zipIdx_iff_getElem?.mpr channel, (a.offset, ef),
              (actions.get?_eq_some _ _).mp filter, a.tag, found, ?_⟩
            simp

theorem nodup_actionsAt : (actionsAt t.records e).Nodup := by
  rw [records_actionsAt e formed, List.nodup_flatMap]
  constructor
  · rintro ⟨actions, c⟩ channel
    rw [List.nodup_flatMap]
    constructor
    · rintro ⟨offset, ef⟩ -
      cases ef.lookup e with
      | none => exact List.nodup_nil
      | some tag => exact List.nodup_singleton _
    · apply actions.keyed.imp
      rintro ⟨offset, ef⟩ ⟨offset', ef'⟩ less a left right
      obtain ⟨_, -, rfl⟩ := List.mem_map.mp left
      obtain ⟨_, -, same⟩ := List.mem_map.mp right
      simp only [Action.mk.injEq] at same
      exact absurd same.1 less.ne'
  · have numbered : t.data.zipIdx.Pairwise fun p q => p.2 ≠ q.2 := by
      have distinct : (t.data.zipIdx.map Prod.snd).Nodup := by
        rw [List.zipIdx_map_snd]
        exact List.nodup_range'
      exact List.pairwise_map.mp distinct
    apply numbered.imp_of_mem
    rintro ⟨actions, c⟩ ⟨actions', c'⟩ channel channel' differ a left right
    obtain ⟨⟨offset, ef⟩, inside, left⟩ := List.mem_flatMap.mp left
    obtain ⟨⟨offset', ef'⟩, inside', right⟩ := List.mem_flatMap.mp right
    obtain ⟨_, -, rfl⟩ := List.mem_map.mp left
    obtain ⟨_, -, same⟩ := List.mem_map.mp right
    simp only [Action.mk.injEq] at same
    have small := (filter_of_mem channel inside).2
    have small' := (filter_of_mem channel' inside').2
    have equal := congrArg BitVec.toNat same.2.2
    simp only [BitVec.toNat_ofNat] at equal
    simp only at differ
    omega

end Table

/-! ### Their order -/

/-- What the entries are sorted by, the first differing field deciding. -/
def TableEntry.key (te : TableEntry) : Event ×ₗ BitVec 8 ×ₗ Time ×ₗ Channel :=
  toLex (te.event, toLex (te.eventBits, toLex (te.offset, te.channel)))

theorem sort_eq_true (a b : TableEntry) : sortEventBitsOffsetChannel a b = true ↔ a.key < b.key := by
  simp only [TableEntry.key, Prod.Lex.toLex_lt_toLex, sortEventBitsOffsetChannel]
  rcases lt_trichotomy a.event b.event with less | same | more
  · simp [less]
  · rcases lt_trichotomy a.eventBits b.eventBits with less | same' | more
    · simp [same, less]
    · rcases lt_trichotomy a.offset b.offset with less | same'' | more
      · simp [same, same', less]
      · simp [same, same', same'']
      · simp [same, same', more, more.not_gt, more.ne']
    · simp [same, more, more.not_gt, more.ne']
  · simp [more, more.not_gt, more.ne']

theorem sort_eq_false (a b : TableEntry) : sortEventBitsOffsetChannel b a = false ↔ a.key ≤ b.key := by
  rw [← not_lt, ← sort_eq_true, Bool.not_eq_true]

/-- A larger block stands before the smaller ones with the same start. -/
theorem key_le {a b : TableEntry} (ordered : a.key ≤ b.key) :
    a.event < b.event ∨ (a.event = b.event ∧ a.eventBits ≤ b.eventBits) := by
  rcases Prod.Lex.le_iff.mp ordered with less | ⟨same, rest⟩
  · exact .inl less
  · right
    refine ⟨same, ?_⟩
    rcases Prod.Lex.le_iff.mp rest with less | ⟨equal, -⟩
    · exact less.le
    · exact equal.le

namespace Table

theorem get_perm (t : Table) : t.get.Perm t.records := List.perm_insertionSort _ _

theorem get_sorted (t : Table) : t.get.Pairwise fun a b => a.key ≤ b.key := by
  have total : Std.Total fun a b : TableEntry => sortEventBitsOffsetChannel b a = false :=
    ⟨fun a b => by simpa [sort_eq_false] using le_total a.key b.key⟩
  have trans : IsTrans TableEntry fun a b => sortEventBitsOffsetChannel b a = false :=
    ⟨fun a b c left right => by
      rw [sort_eq_false] at *
      exact le_trans left right⟩
  have sorted : t.get.Pairwise fun a b => sortEventBitsOffsetChannel b a = false :=
    List.pairwise_insertionSort _ t.records
  exact sorted.imp fun ordered => (sort_eq_false _ _).mp ordered

theorem mem_records_aligned {t : Table} (formed : t.WellFormed) {te : TableEntry} (inside : te ∈ t.records) :
    ∃ k, te.Aligned k := by
  rw [records, List.mem_flatMap] at inside
  obtain ⟨⟨actions, c⟩, channel, inside⟩ := inside
  obtain ⟨⟨offset, ef⟩, filter, inside⟩ := List.mem_flatMap.mp inside
  obtain ⟨range, held, inside⟩ := List.mem_flatMap.mp inside
  have apart : EventFilter.Apart ef.entries := (filter_of_mem channel filter).1 ▸ formed _ offset
  exact ((blocks_spec _ range.1 range.2.last (apart.1 range held)).block te inside).1

end Table

end WrCores.EcaLib
