import WrCores.EcaLib.Image

/-!
`Table::Impl::get` against `set`: the blocks of a range and the end of the loops that make them, and a table filled
again with the entries of another one.
-/

namespace WrCores.EcaLib

open Clocked PowTwo Ordered

/-! ### The loops end -/

section Loops

variable (te : TableEntry)

/-- With more turns the first loop does no more where its condition to leave holds. -/
theorem splitLow_stable (last : Event) (fuel more : Nat) (first : Event)
    (done : last ≤ (splitLow te last fuel first).2 ||| zerosMask (splitLow te last fuel first).2) :
    splitLow te last (fuel + more) first = splitLow te last fuel first := by
  induction fuel generalizing first with
  | zero =>
      cases more with
      | zero => rfl
      | succ more =>
          rw [Nat.zero_add, splitLow]
          exact if_pos done
  | succ fuel ih =>
      rw [Nat.succ_add, splitLow, splitLow]
      rw [splitLow] at done
      split
      · rfl
      · rename_i later
        rw [if_neg later] at done
        simp only at done ⊢
        rw [ih _ done]

theorem splitHigh_stable (first : Event) (fuel more : Nat) (last : Event)
    (done : (splitHigh te first fuel last).2 - onesMask (splitHigh te first fuel last).2 ≤ first) :
    splitHigh te first (fuel + more) last = splitHigh te first fuel last := by
  induction fuel generalizing last with
  | zero =>
      cases more with
      | zero => rfl
      | succ more =>
          rw [Nat.zero_add, splitHigh]
          exact if_pos done
  | succ fuel ih =>
      rw [Nat.succ_add, splitHigh, splitHigh]
      rw [splitHigh] at done
      split
      · rfl
      · rename_i later
        rw [if_neg later] at done
        simp only at done ⊢
        rw [ih _ done]

/-- What the first loop leaves does not reach behind the block that starts there. -/
theorem splitLow_done (first last : Event) (ordered : first ≤ last) :
    last ≤ (splitLow te last 65 first).2 ||| zerosMask (splitLow te last 65 first).2 := by
  obtain ⟨-, -, -, j, small, aligned, wide⟩ := splitLow_spec te last 65 first 0 ordered (by simp) (by decide)
    (by decide)
  generalize (splitLow te last 65 first).2 = start at *
  obtain ⟨k, lowest, size⟩ := zerosMask_lowest start
  have larger : j ≤ k := by
    by_cases none : start = 0
    · rw [lowest.zero none]
      exact small
    · exact lowest.le none aligned
  have more := Nat.pow_le_pow_right (show 0 < 2 by decide) larger
  have pos : 0 < 2 ^ k := Nat.two_pow_pos k
  rw [BitVec.le_def, or_mask_toNat size lowest.whole]
  omega

theorem splitHigh_done (first last : Event) (ordered : first ≤ last) :
    (splitHigh te first 65 last).2 - onesMask (splitHigh te first 65 last).2 ≤ first := by
  obtain ⟨-, low, -, j, small, aligned, wide⟩ := splitHigh_spec te first 65 last 0 ordered (by simp) (by decide)
    (by decide)
  generalize (splitHigh te first 65 last).2 = stop at *
  obtain ⟨k, lowest, size⟩ := zerosMask_lowest (stop + 1)
  rw [← onesMask_eq] at size
  have bound := stop.isLt
  have pos : 0 < 2 ^ k := Nat.two_pow_pos k
  have larger : j ≤ k ∧ 2 ^ k ≤ stop.toNat + 1 := by
    rcases succ_toNat stop with ⟨none, full⟩ | ⟨some, value⟩
    · rw [lowest.zero none]
      exact ⟨small, full.ge⟩
    · refine ⟨lowest.le some (value ▸ aligned), ?_⟩
      rw [← value]
      exact Nat.le_of_dvd (by omega) lowest.whole
  have more := Nat.pow_le_pow_right (show 0 < 2 by decide) larger.1
  rw [BitVec.le_def] at low ⊢
  rw [BitVec.toNat_sub_of_le (by rw [BitVec.le_def, size]; omega), size]
  omega

end Loops

/-- Blocks that have every event once at most are apart. -/
theorem apart_of_count (l : List TableEntry) (once : ∀ e : Event, l.countP (fun b => b.Covers e) ≤ 1) :
    l.Pairwise fun a b => ∀ e, ¬(a.Covers e ∧ b.Covers e) := by
  induction l with
  | nil => exact List.Pairwise.nil
  | cons b rest ih =>
      refine List.pairwise_cons.mpr ⟨?_, ih fun e => ?_⟩
      · rintro c inside e ⟨here, there⟩
        have both := once e
        have found : 0 < rest.countP fun b => b.Covers e :=
          List.countP_pos_iff.mpr ⟨c, inside, by simpa using there⟩
        rw [List.countP_cons] at both
        simp only [here, decide_true, if_true] at both
        omega
      · have whole := once e
        rw [List.countP_cons] at whole
        omega

/-- The blocks of a range, with the loops that make them at their end. -/
structure Decomposed (te : TableEntry) (first last : Event) : Prop where
  lowEnds : ∀ more, splitLow te last (65 + more) first = splitLow te last 65 first
  highEnds : ∀ more, splitHigh te (splitLow te last 65 first).2 (65 + more) last =
    splitHigh te (splitLow te last 65 first).2 65 last
  blocks : ∀ b ∈ blocks te first last, b.action = te.action ∧ b.eventBits.toNat ≤ 64 ∧
    2 ^ (64 - b.eventBits.toNat) ∣ b.event.toNat
  apart : (EcaLib.blocks te first last).Pairwise fun a b => ∀ e, ¬(a.Covers e ∧ b.Covers e)
  union : ∀ e, (∃ b ∈ EcaLib.blocks te first last, b.Covers e) ↔ first ≤ e ∧ e ≤ last

theorem decomposed (te : TableEntry) (first last : Event) (ordered : first ≤ last) : Decomposed te first last := by
  obtain ⟨block, once⟩ := blocks_spec te first last ordered
  have below := (splitLow_spec te last 65 first 0 ordered (by simp) (by decide) (by decide)).2.2.1
  constructor
  · exact fun more => splitLow_stable te last 65 more first (splitLow_done te first last ordered)
  · exact fun more => splitHigh_stable te _ 65 more last (splitHigh_done te _ last below)
  · intro b inside
    obtain ⟨⟨k, aligned⟩, same⟩ := block b inside
    have bits := aligned.bits
    have small := aligned.small
    refine ⟨same, by omega, ?_⟩
    have size : 64 - b.eventBits.toNat = k := by omega
    rw [size]
    exact aligned.start
  · apply apart_of_count
    intro e
    rw [once e]
    split <;> omega
  · intro e
    have count := once e
    have found : (∃ b ∈ blocks te first last, b.Covers e) ↔ 0 < (blocks te first last).countP fun b => b.Covers e :=
      by
      rw [List.countP_pos_iff]
      simp
    rw [found, count, BitVec.le_def, BitVec.le_def]
    split <;> omega

namespace Table

/-- `set`: the entries added in turn, with the number of conflicts. -/
def addEntries : List TableEntry → Table → Nat → Table × Nat
  | [], t, count => (t, count)
  | te :: rest, t, count => addEntries rest (t.add te).1 (count + (t.add te).2)

def set (t : Table) (entries : List TableEntry) : Table × Nat := addEntries entries t 0

variable {t t' : Table}

/-- Entries that agree with the other table are added in any order. -/
theorem addEntries_spec (l : List TableEntry) (formed : t'.WellFormed) (below : t'.Below t)
    (known : ∀ te ∈ l, ∀ e, te.Covers e → t.lookup te.channel te.offset e = some te.tag) (count : Nat) :
    (addEntries l t' count).2 = count ∧ (addEntries l t' count).1.WellFormed ∧
    (addEntries l t' count).1.Below t ∧
    ∀ channel offset e, (t'.lookup channel offset e = t.lookup channel offset e ∨
        ∃ te ∈ l, te.channel = channel ∧ te.offset = offset ∧ te.Covers e) →
      (addEntries l t' count).1.lookup channel offset e = t.lookup channel offset e := by
  induction l generalizing t' count with
  | nil =>
      refine ⟨rfl, formed, below, ?_⟩
      rintro channel offset e (same | ⟨te, inside, -⟩)
      · exact same
      · simp at inside
  | cons te rest ih =>
      have holds := known te (by simp)
      obtain ⟨free, formed', lookup'⟩ := addRange_known te.ordered te.action formed below
        fun e low high => holds e ⟨low, high⟩
      have same : t'.add te = t'.addRange te.first te.last te.action.offset te.action.channel te.action.tag := rfl
      rw [addEntries, same, free, Nat.add_zero]
      have below' : (t'.addRange te.first te.last te.action.offset te.action.channel te.action.tag).1.Below t := by
        intro channel offset e tag found
        rw [lookup'] at found
        split at found
        · exact found
        · exact below _ _ _ _ found
      obtain ⟨none, formed'', below'', inside⟩ :=
        ih formed' below' (fun other held => known other (by simp [held])) count
      refine ⟨none, formed'', below'', ?_⟩
      intro channel offset e source
      apply inside
      rw [lookup']
      by_cases here : channel = te.action.channel ∧ offset = te.action.offset ∧ te.first ≤ e ∧ e ≤ te.last
      · exact .inl (if_pos here)
      · rw [if_neg here]
        rcases source with equal | ⟨other, held, rfl, rfl, covers⟩
        · exact .inl equal
        · rcases List.mem_cons.mp held with rfl | held
          · exact absurd ⟨rfl, rfl, covers⟩ here
          · exact .inr ⟨other, held, rfl, rfl, covers⟩

/-- A stored range is taken apart into aligned blocks, and the blocks of all ranges make the same map again. -/
theorem get_decomposes :
    (∀ te first last, first ≤ last → Decomposed te first last) ∧
    ∀ t : Table, t.WellFormed → (set {} t.get).2 = 0 ∧ (set {} t.get).1.WellFormed ∧
      ∀ channel offset e, (set {} t.get).1.lookup channel offset e = t.lookup channel offset e := by
  refine ⟨decomposed, ?_⟩
  intro t formed
  have empty : ∀ channel offset e, ({} : Table).lookup channel offset e = none := by
    intro channel offset e
    simp [lookup, filter, EventFilter.lookup, OrderedMap.empty]
  have listed : ∀ te, te ∈ t.get ↔ te ∈ t.records := fun te => t.get_perm.mem_iff
  obtain ⟨none, formed', below, inside⟩ := addEntries_spec (t := t) t.get wellFormed_empty
    (fun channel offset e tag found => by rw [empty] at found; cases found)
    (fun te held e covers => (mem_actionsAt e formed te.action).mp
      (List.mem_map.mpr ⟨te, by simpa [covers] using (listed te).mp held, rfl⟩)) 0
  refine ⟨none, formed', ?_⟩
  intro channel offset e
  apply inside
  cases found : t.lookup channel offset e with
  | none => exact .inl (empty _ _ _)
  | some tag =>
      right
      have known : ⟨offset, tag, channel⟩ ∈ actionsAt t.records e := (mem_actionsAt e formed _).mpr found
      obtain ⟨te, held, same⟩ := List.mem_map.mp known
      rw [List.mem_filter] at held
      refine ⟨te, (listed te).mpr held.1, congrArg Action.channel same, congrArg Action.offset same, ?_⟩
      simpa using held.2

/-- The events 3 to 9, and a table of two ranges, one inside the other. -/
theorem get_decomposes_nested :
    let t := run call {} [.add { event := 4, tag := 1, eventBits := 62 }, .add
      { event := 3, tag := 1, eventBits := 64 },
      .add { event := 5, tag := 2, channel := 1, eventBits := 64 }]
    Decomposed { tag := 1 } 3 9 ∧ (set {} t.get).1.lookup 1 0 5 = some 2 := by
  intro t
  have fits : Along call Fits {} [.add { event := 4, tag := 1, eventBits := 62 },
      .add { event := 3, tag := 1, eventBits := 64 }, .add
        { event := 5, tag := 2, channel := 1, eventBits := 64 }] := by
    decide
  have formed : t.WellFormed := fits.invariant WellFormed call_formed wellFormed_empty
  refine ⟨get_decomposes.1 { tag := 1 } 3 9 (by decide), ?_⟩
  rw [(get_decomposes.2 t formed).2.2 1 0 5]
  decide

end Table

end WrCores.EcaLib
