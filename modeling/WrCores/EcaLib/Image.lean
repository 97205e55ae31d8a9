import WrCores.EcaLib.Compile

/-!
store-table.cpp and load-table.cpp: the compiled tables in the registers of the hardware, and
`Table::Impl::decompile` of what is read back. The search table is filled with its last entry; the walker
table keeps what it had behind the entries that were written.
-/

namespace WrCores.EcaLib

open Clocked Ordered

/-- What `eca_probe` finds. The pointers of the tables are 16 bits wide with a bit for the end of a list. -/
structure Hardware where
  logTableSize : Nat
  channels : Nat
  pointers : logTableSize ≤ 15

def Hardware.tableSize (eca : Hardware) : Nat := 2 ^ eca.logTableSize

structure SearchRegs where
  first : BitVec 32
  event1 : BitVec 32
  event0 : BitVec 32
  deriving DecidableEq, Repr

structure WalkRegs where
  next : BitVec 32
  delay1 : BitVec 32
  delay0 : BitVec 32
  tag : BitVec 32
  channel : BitVec 32
  deriving DecidableEq, Repr

def writeIndex (i : Index) : BitVec 32 := if i = -1 then 0 else 0x80000000#32 ||| i.signExtend 32

def readIndex (first : BitVec 32) : Index := if first >>> 31 ≠ 0 then (first &&& 0x7FFF).setWidth 16 else -1

def highWord (x : BitVec 64) : BitVec 32 := (x >>> 32).setWidth 32

def lowWord (x : BitVec 64) : BitVec 32 := (x &&& 0xFFFFFFFF).setWidth 32

def joinWords (high low : BitVec 32) : BitVec 64 := high.setWidth 64 <<< 32 ||| low.setWidth 64

/-- The loop of `storeSearch`; the assertion on the order of the entries fails as `none`. -/
def searchWrites : Event → List SearchEntry → Option (List SearchRegs)
  | _, [] => some []
  | lastEvent, se :: rest =>
      if lastEvent ≤ se.event then
        (searchWrites se.event rest).map (⟨writeIndex se.first, highWord se.event, lowWord se.event⟩ :: ·)
      else none

def storeSearch (eca : Hardware) (table : List SearchEntry) : Option (List SearchRegs) :=
  if 2 * eca.tableSize < table.length then none
  else
    match table with
    | [] => none
    | se :: rest =>
        if se.event ≠ 0 then none
        else
          searchWrites 0
            (table ++ List.replicate (2 * eca.tableSize - table.length) ((se :: rest).getLast (List.cons_ne_nil _ _)))

/-- The loop of `storeWalk` from `i` on. -/
def walkWrites (channels : Nat) : Nat → List WalkEntry → Option (List WalkRegs)
  | _, [] => some []
  | i, we :: rest =>
      if channels ≤ we.channel.toNat then none
      else if we.next.toInt < i then
        (walkWrites channels (i + 1) rest).map
          (⟨writeIndex we.next, highWord we.offset, lowWord we.offset, we.tag, we.channel.setWidth 32⟩ :: ·)
      else none

def storeWalk (eca : Hardware) (table : List WalkEntry) : Option (List WalkRegs) :=
  if eca.tableSize < table.length then none else walkWrites eca.channels 0 table

/-- An entry as `loadSearch` reads it. -/
def SearchRegs.load (r : SearchRegs) : SearchEntry := ⟨joinWords r.event1 r.event0, readIndex r.first⟩

/-- An entry as `loadWalk` reads it. -/
def WalkRegs.load (r : WalkRegs) : WalkEntry :=
  ⟨joinWords r.delay1 r.delay0, r.tag, readIndex r.next, r.channel.setWidth 8⟩

namespace Table

/-- The inner loop of `decompile`, from the index `wi` on. An index before the table is undefined, and a
list longer than the table never ends. -/
def walkList (w : List WalkEntry) (event last : Event) : Nat → Index → Table → Nat → Option (Table × Nat)
  | 0, _, _, _ => none
  | fuel + 1, wi, t, count =>
      if wi = -1 then some (t, count)
      else if (w.length : Int) ≤ wi.toInt then some (t, count + 1)
      else if wi.toInt < 0 then none
      else
        match w[wi.toNat]? with
        | none => none
        | some we =>
            let added := t.addRange event last we.offset we.channel we.tag
            walkList w event last fuel we.next added.1 (count + added.2)

/-- The outer loop; the search entries come from the back. -/
def decompileLoop (w : List WalkEntry) : List SearchEntry → Event → Table → Nat → Option (Table × Nat)
  | [], _, t, count => some (t, count)
  | se :: rest, last, t, count =>
      match walkList w se.event last (w.length + 1) se.first t count with
      | none => none
      | some r => decompileLoop w rest (se.event - 1) r.1 r.2

def decompile (t : Table) (s : List SearchEntry) (w : List WalkEntry) : Option (Table × Nat) :=
  decompileLoop w s.reverse (-1) t 0

end Table

/-! ### The registers -/

theorem joinWords_split (x : BitVec 64) : joinWords (highWord x) (lowWord x) = x := by
  apply BitVec.eq_of_getLsbD_eq
  intro i inside
  have ones : (0xFFFFFFFF#64).getLsbD i = decide (i < 32) := by
    rw [show (0xFFFFFFFF#64) = BitVec.ofNat 64 (2 ^ 32 - 1) from rfl, BitVec.getLsbD_ofNat,
      Nat.testBit_two_pow_sub_one]
    simp [inside]
  simp only [joinWords, highWord, lowWord, BitVec.getLsbD_or, BitVec.getLsbD_shiftLeft, BitVec.getLsbD_setWidth,
    BitVec.getLsbD_ushiftRight, BitVec.getLsbD_and]
  by_cases low : i < 32
  · simp [low, inside, ones]
  · have split : 32 + (i - 32) = i := by omega
    have upper : i - 32 < 32 := by omega
    have reach : i - 32 < 64 := by omega
    simp [low, inside, split, upper, reach]

theorem readIndex_writeIndex (i : Index) (small : i = -1 ∨ i.toNat < 2 ^ 15) : readIndex (writeIndex i) = i := by
  rcases small with rfl | small
  · decide
  · have valid : i ≠ -1 := by
      rintro rfl
      simp at small
    have plain : i.signExtend 32 = i.setWidth 32 := by
      apply BitVec.signExtend_eq_setWidth_of_msb_false
      rw [BitVec.msb_eq_false_iff_two_mul_lt]
      omega
    have value : (writeIndex i).toNat = 2 ^ 31 + i.toNat := by
      rw [writeIndex, if_neg valid, plain, BitVec.toNat_or, BitVec.toNat_setWidth, Nat.mod_eq_of_lt (by omega)]
      have := Nat.two_pow_add_eq_or_of_lt (show i.toNat < 2 ^ 31 by omega) 1
      simpa using this.symm
    have top : writeIndex i >>> 31 ≠ 0 := by
      intro zero
      have := congrArg BitVec.toNat zero
      rw [BitVec.toNat_ushiftRight, value, Nat.shiftRight_eq_div_pow] at this
      simp only [BitVec.ofNat_eq_ofNat, BitVec.toNat_ofNat] at this
      omega
    apply BitVec.eq_of_toNat_eq
    rw [readIndex, if_pos top, BitVec.toNat_setWidth, BitVec.toNat_and, value]
    have mask : (0x7FFF#32).toNat = 2 ^ 15 - 1 := rfl
    rw [show (0x7FFF : BitVec 32) = 0x7FFF#32 from rfl, mask, Nat.and_two_pow_sub_one_eq_mod]
    omega
/-- What was written is read back. -/
theorem searchWrites_load (lastEvent : Event) (table : List SearchEntry) (regs : List SearchRegs)
    (small : ∀ se ∈ table, se.first = -1 ∨ se.first.toNat < 2 ^ 15)
      (stored : searchWrites lastEvent table = some regs) :
    regs.map SearchRegs.load = table := by
  induction table generalizing lastEvent regs with
  | nil =>
      cases stored
      rfl
  | cons se rest ih =>
      rw [searchWrites] at stored
      split at stored
      · obtain ⟨regs', written, rfl⟩ := Option.map_eq_some_iff.mp stored
        have tail := ih se.event regs' (fun x inside => small x (by simp [inside])) written
        rw [List.map_cons, tail, SearchRegs.load, joinWords_split, readIndex_writeIndex _ (small se (by simp))]
      · cases stored

theorem walkWrites_load (channels i : Nat) (table : List WalkEntry) (regs : List WalkRegs)
    (small : ∀ we ∈ table, we.next = -1 ∨ we.next.toNat < 2 ^ 15) (stored : walkWrites channels i table = some regs) :
    regs.map WalkRegs.load = table := by
  induction table generalizing i regs with
  | nil =>
      cases stored
      rfl
  | cons we rest ih =>
      rw [walkWrites] at stored
      split at stored
      · cases stored
      · split at stored
        · obtain ⟨regs', written, rfl⟩ := Option.map_eq_some_iff.mp stored
          have tail := ih (i + 1) regs' (fun x inside => small x (by simp [inside])) written
          rw [List.map_cons, tail, WalkRegs.load, joinWords_split, readIndex_writeIndex _ (small we (by simp))]
          simp
        · cases stored

/-! ### One search entry -/

theorem Chain.valid {w : List WalkEntry} {i : Index} {l : List Action} (chain : Chain w i l) :
    i = -1 ∨ i.toNat < w.length := by
  cases chain with
  | done => exact .inl rfl
  | visit valid found behind => exact .inr (List.getElem?_eq_some_iff.mp found).1

theorem Chain.nil_of_end {w : List WalkEntry} {l : List Action} (chain : Chain w (-1) l) : l = [] := by
  cases chain with
  | done => rfl
  | visit valid _ _ => exact absurd rfl valid

/-- A list has one course. -/
theorem Chain.unique {w : List WalkEntry} {i : Index} {l l' : List Action} (chain : Chain w i l)
    (chain' : Chain w i l') : l = l' := by
  induction chain generalizing l' with
  | done => exact chain'.nil_of_end.symm
  | visit valid found behind ih =>
      cases chain' with
      | done => exact absurd rfl valid
      | visit _ found' behind' =>
          cases found.symm.trans found'
          rw [ih behind']

/-- The links lead to lower indices, so a list is not longer than the table. -/
theorem Chain.length_le {w : List WalkEntry} (back : ∀ (i : Nat) (we : WalkEntry), w[i]? = some we →
    we.next = -1 ∨ we.next.toNat < i) {i : Index} {l : List Action} (chain : Chain w i l) : l.length ≤ w.length := by
  have bound : l.length ≤ i.toNat + 1 := by
    induction chain with
    | done => simp
    | visit valid found behind ih =>
        simp only [List.length_cons]
        rcases back _ _ found with ended | less
        · rw [ended] at behind
          rw [behind.nil_of_end]
          simp
        · omega
  rcases chain.valid with ended | inside
  · rw [ended] at chain
    rw [chain.nil_of_end]
    simp
  · omega

namespace Table

/-- The ranges of a list of actions, added one after the other. -/
def addAll (event last : Event) : List Action → Table → Nat → Table × Nat
  | [], t, count => (t, count)
  | a :: rest, t, count =>
      let added := t.addRange event last a.offset a.channel a.tag
      addAll event last rest added.1 (count + added.2)

theorem walkList_eq {w : List WalkEntry} (event last : Event) {i : Index} {l : List Action} (chain : Chain w i l)
    (small : w.length ≤ 2 ^ 15) (w' : List WalkEntry) (fuel : Nat) (enough : l.length < fuel) (t : Table)
      (count : Nat) :
    walkList (w ++ w') event last fuel i t count = some (addAll event last l t count) := by
  induction chain generalizing fuel t count with
  | done =>
      cases fuel with
      | zero => omega
      | succ fuel => rw [walkList, if_pos rfl]; rfl
  | @visit i we rest valid found behind ih =>
      cases fuel with
      | zero => omega
      | succ fuel =>
          have inside := (List.getElem?_eq_some_iff.mp found).1
          have signed : i.toInt = i.toNat := by
            rw [BitVec.toInt_eq_toNat_of_lt]
            omega
          have within : ¬((w ++ w').length : Int) ≤ i.toInt := by
            rw [signed, List.length_append]
            omega
          have nonnegative : ¬i.toInt < 0 := by omega
          rw [walkList, if_neg valid, if_neg within, if_neg nonnegative, List.getElem?_append_left inside, found]
          exact ih fuel (by simpa using enough) _ _

/-- The table has nothing that the other one does not have. -/
def Below (t' t : Table) : Prop := ∀ channel offset e tag,
  t'.lookup channel offset e = some tag → t.lookup channel offset e = some tag

section Adding

variable {t t' : Table} {event last : Event}

/-- A stored range has the tag that its events are given. -/
theorem lookup_stored (formed : t.WellFormed) {channel : Channel} {offset : Time} {p : Event × EventRange} {e : Event}
    (inside : p ∈ (t.filter channel offset).entries) (low : p.1 ≤ e) (high : e ≤ p.2.last) :
    t.lookup channel offset e = some p.2.tag := by
  rw [lookup, EventFilter.lookup_eq_some _ (formed channel offset)]
  exact ⟨p, inside, low, high, rfl⟩

/-- One range of the other table is added. -/
theorem addRange_known (ordered : event ≤ last) (a : Action) (formed : t'.WellFormed) (below : t'.Below t)
    (known : ∀ e, event ≤ e → e ≤ last → t.lookup a.channel a.offset e = some a.tag) :
    (t'.addRange event last a.offset a.channel a.tag).2 = 0 ∧
    (t'.addRange event last a.offset a.channel a.tag).1.WellFormed ∧
    ∀ channel offset e, (t'.addRange event last a.offset a.channel a.tag).1.lookup channel offset e =
      if channel = a.channel ∧ offset = a.offset ∧ event ≤ e ∧ e ≤ last then t.lookup channel offset e
      else t'.lookup channel offset e := by
  have clean : ∀ p ∈ (t'.filter a.channel a.offset).entries,
      last < p.1 ∨ p.2.last < event ∨ p.2.tag = a.tag := by
    intro p inside
    by_contra away
    simp only [not_or, not_lt] at away
    obtain ⟨early, late, differ⟩ := away
    have own := (formed a.channel a.offset).1 p inside
    -- an event of both ranges has both tags
    have both : ∃ e, event ≤ e ∧ e ≤ last ∧ p.1 ≤ e ∧ e ≤ p.2.last := by
      by_cases behind : event ≤ p.1
      · exact ⟨p.1, behind, early, le_rfl, own⟩
      · exact ⟨event, le_rfl, ordered, (not_le.mp behind).le, late⟩
    obtain ⟨e, low, high, low', high'⟩ := both
    have other := below _ _ _ _ (lookup_stored formed inside low' high')
    rw [known e low high] at other
    exact differ (Option.some.inj other).symm
  have fits : t'.Adds event last a.offset a.channel a.tag := EventFilter.wraps_clean clean
  have free := addRange_free formed ordered a.offset a.channel a.tag clean
  refine ⟨free, addRange_formed formed ordered _ _ _ fits, ?_⟩
  intro channel offset e
  rw [addRange_lookup formed ordered _ _ _ fits free]
  by_cases here : channel = a.channel ∧ offset = a.offset ∧ event ≤ e ∧ e ≤ last
  · rw [if_pos here, if_pos here, here.1, here.2.1, known e here.2.2.1 here.2.2.2]
  · rw [if_neg here, if_neg here]

/-- The ranges of the actions at these events are added without a conflict. -/
theorem addAll_spec (l : List Action) (formed : t'.WellFormed) (below : t'.Below t)
    (known : ∀ a ∈ l, ∀ e, event ≤ e → e ≤ last → t.lookup a.channel a.offset e = some a.tag) (count : Nat) :
    (addAll event last l t' count).2 = count ∧ (addAll event last l t' count).1.WellFormed ∧
    (addAll event last l t' count).1.Below t ∧
    (∀ channel offset e, ¬(event ≤ e ∧ e ≤ last) →
      (addAll event last l t' count).1.lookup channel offset e = t'.lookup channel offset e) ∧
    ∀ channel offset e, event ≤ e → e ≤ last →
      (t'.lookup channel offset e = t.lookup channel offset e ∨ ∃ a ∈ l, a.channel = channel ∧ a.offset = offset) →
      (addAll event last l t' count).1.lookup channel offset e = t.lookup channel offset e := by
  induction l generalizing t' count with
  | nil =>
      refine ⟨rfl, formed, below, fun _ _ _ _ => rfl, ?_⟩
      rintro channel offset e - - (same | ⟨a, inside, -⟩)
      · exact same
      · simp at inside
  | cons a rest ih =>
      rw [addAll]
      by_cases ordered : event ≤ last
      · obtain ⟨free, formed', lookup'⟩ := addRange_known ordered a formed below (known a (by simp))
        generalize t'.addRange event last a.offset a.channel a.tag = added at *
        obtain ⟨t₁, conflicts⟩ := added
        simp only at free formed' lookup' ⊢
        rw [free, Nat.add_zero]
        have below' : t₁.Below t := by
          intro channel offset e tag found
          rw [lookup'] at found
          split at found
          · exact found
          · exact below _ _ _ _ found
        obtain ⟨none, formed'', below'', outside, inside⟩ :=
          ih formed' below' (fun b held => known b (by simp [held])) count
        refine ⟨none, formed'', below'', ?_, ?_⟩
        · intro channel offset e out
          rw [outside channel offset e out, lookup', if_neg fun all => out all.2.2]
        · intro channel offset e low high source
          apply inside channel offset e low high
          rw [lookup']
          by_cases here : channel = a.channel ∧ offset = a.offset ∧ event ≤ e ∧ e ≤ last
          · exact .inl (if_pos here)
          · rw [if_neg here]
            rcases source with same | ⟨b, held, rfl, rfl⟩
            · exact .inl same
            · rcases List.mem_cons.mp held with rfl | held
              · exact absurd ⟨rfl, rfl, low, high⟩ here
              · exact .inr ⟨b, held, rfl, rfl⟩
      · have unchanged : t'.addRange event last a.offset a.channel a.tag = (t', 0) := by
          rw [addRange, if_pos (not_le.mp ordered)]
        rw [unchanged]
        obtain ⟨none, formed', below', outside, -⟩ := ih formed below (fun b held => known b (by simp [held])) count
        refine ⟨none, formed', below', outside, ?_⟩
        intro channel offset e low high
        exact absurd (le_trans low high) ordered

/-- The list of a search entry has the actions of all events up to the next entry. -/
structure Lists (t : Table) (w : List WalkEntry) (se : SearchEntry) (last : Event) (l : List Action) : Prop where
  chain : Chain w se.first l
  actions : ∀ e, se.event ≤ e → e ≤ last → ∀ a : Action, a ∈ l ↔ t.lookup a.channel a.offset e = some a.tag

/-- The events from `bound` on are there again. -/
def Rebuilt (t t' : Table) (bound : Nat) : Prop :=
  t'.WellFormed ∧ ∀ channel offset e,
    t'.lookup channel offset e = if bound ≤ e.toNat then t.lookup channel offset e else none

theorem addAll_rebuilt {w : List WalkEntry} {se : SearchEntry} {l : List Action} {bound : Nat}
    (rebuilt : Rebuilt t t' bound) (lists : Lists t w se last l) (low : se.event.toNat ≤ bound)
    (high : bound ≤ last.toNat + 1 ∨ bound ≤ se.event.toNat) (count : Nat) :
    (addAll se.event last l t' count).2 = count ∧
      Rebuilt t (addAll se.event last l t' count).1 se.event.toNat := by
  obtain ⟨formed, lookup'⟩ := rebuilt
  have below : t'.Below t := by
    intro channel offset e tag found
    rw [lookup'] at found
    split at found
    · exact found
    · cases found
  obtain ⟨none, formed', -, outside, inside⟩ := addAll_spec l formed below
    (fun a held e first second => (lists.actions e first second a).mp held) count
  refine ⟨none, formed', ?_⟩
  intro channel offset e
  by_cases here : se.event ≤ e ∧ e ≤ last
  · rw [if_pos (BitVec.le_def.mp here.1)]
    apply inside channel offset e here.1 here.2
    cases found : t.lookup channel offset e with
    | none =>
        left
        rw [lookup', found]
        split <;> rfl
    | some tag => exact .inr ⟨⟨offset, tag, channel⟩, (lists.actions e here.1 here.2 _).mpr found, rfl, rfl⟩
  · rw [outside channel offset e here, lookup']
    rw [BitVec.le_def, BitVec.le_def] at here
    by_cases later : se.event.toNat ≤ e.toNat
    · rw [if_pos later, if_pos (by omega)]
    · rw [if_neg later, if_neg (by omega)]

end Adding

/-! ### The whole image -/

section Image

variable {t : Table} {w : List WalkEntry}

variable {s : List SearchEntry} (increasing : s.Pairwise fun a b => a.event < b.event)
  (serves : ∀ e, t.Serves s w e) (w' : List WalkEntry) (small : w.length ≤ 2 ^ 15)
  (back : ∀ (i : Nat) (we : WalkEntry), w[i]? = some we → we.next = -1 ∨ we.next.toNat < i)

include increasing serves in
theorem exists_lists {pre post : List SearchEntry} {se : SearchEntry} (split : s = pre ++ se :: post) (last : Event)
    (before : ∀ e ≤ last, ∀ x ∈ post, e < x.event) : ∃ l, Lists t w se last l := by
  rw [split] at increasing
  obtain ⟨-, right, cross⟩ := List.pairwise_append.mp increasing
  have later := (List.pairwise_cons.mp right).1
  -- the search for an event of the entry finds this entry
  have finds (e : Event) (low : se.event ≤ e) (early : ∀ x ∈ post, e < x.event) :
      ∃ l, Chain w se.first l ∧ ∀ a : Action, a ∈ l ↔ t.lookup a.channel a.offset e = some a.tag := by
    obtain ⟨found, known, reach, largest, l, chain, -, actions⟩ := serves e
    have above := largest se (by simp [split]) low
    rw [split] at known
    rcases List.mem_append.mp known with inside | inside
    · exact absurd (cross found inside se (by simp)) (not_lt.mpr above)
    · rcases List.mem_cons.mp inside with rfl | inside
      · exact ⟨l, chain, actions⟩
      · exact absurd reach (not_le.mpr (early found inside))
  obtain ⟨l, chain, -⟩ := finds se.event le_rfl later
  refine ⟨l, chain, ?_⟩
  intro e low high a
  obtain ⟨l', chain', actions⟩ := finds e low (before e high)
  rw [chain.unique chain']
  exact actions a

include small back in
/-- One turn of the outer loop. -/
theorem decompile_turn {se : SearchEntry} {last : Event} {l : List Action}
    (lists : Lists t w se last l) {t' : Table} {bound : Nat} (rebuilt : Rebuilt t t' bound)
    (low : se.event.toNat ≤ bound) (high : bound ≤ last.toNat + 1 ∨ bound ≤ se.event.toNat)
      (rest : List SearchEntry) :
    ∃ t₁, Rebuilt t t₁ se.event.toNat ∧
      decompileLoop (w ++ w') (se :: rest) last t' 0 = decompileLoop (w ++ w') rest (se.event - 1) t₁ 0 := by
  have length := lists.chain.length_le back
  obtain ⟨none, rebuilt'⟩ := addAll_rebuilt rebuilt lists low high 0
  refine ⟨_, rebuilt', ?_⟩
  rw [decompileLoop, walkList_eq se.event last lists.chain small w' _ (by rw [List.length_append]; omega)]
  simp only [none]

include increasing serves small back

/-- The entries before `p`, with what is behind it rebuilt. -/
theorem decompile_before (rev post : List SearchEntry) (p : SearchEntry) (split : s = rev.reverse ++ p :: post)
    (start : (s.head?.map fun se => se.event) = some 0) {t' : Table} (rebuilt : Rebuilt t t' p.event.toNat) :
    ∃ t₁, decompileLoop (w ++ w') rev (p.event - 1) t' 0 = some (t₁, 0) ∧ Rebuilt t t₁ 0 := by
  induction rev generalizing p post t' with
  | nil =>
      have zero : p.event = 0 := by simpa [split] using start
      rw [zero] at rebuilt
      exact ⟨t', rfl, rebuilt⟩
  | cons se rev ih =>
      have split' : s = rev.reverse ++ se :: p :: post := by rw [split]; simp
      have ordered := increasing
      rw [split'] at ordered
      obtain ⟨-, right, -⟩ := List.pairwise_append.mp ordered
      obtain ⟨later, tail⟩ := List.pairwise_cons.mp right
      have less := later p (by simp)
      have last : (p.event - 1).toNat + 1 = p.event.toNat := by bv_omega
      obtain ⟨l, lists⟩ := exists_lists increasing serves split' (p.event - 1) (by
        intro e early x inside
        have near : e < p.event := by bv_omega
        rcases List.mem_cons.mp inside with rfl | inside
        · exact near
        · exact lt_trans near ((List.pairwise_cons.mp tail).1 x inside))
      obtain ⟨t₁, rebuilt₁, turn⟩ := decompile_turn w' small back lists rebuilt (BitVec.lt_def.mp less).le
        (.inl last.ge) rev
      rw [turn]
      exact ih (p :: post) se split' rebuilt₁

/-- The last entry once more: its events are there already. -/
theorem decompile_copies (n : Nat) {init : List SearchEntry} {p : SearchEntry} (split : s = init ++ [p])
    {t' : Table} (rebuilt : Rebuilt t t' p.event.toNat) (rest : List SearchEntry) :
    ∃ t₁, Rebuilt t t₁ p.event.toNat ∧ decompileLoop (w ++ w') (List.replicate n p ++ rest) (p.event - 1) t' 0 =
      decompileLoop (w ++ w') rest (p.event - 1) t₁ 0 := by
  induction n generalizing t' with
  | zero => exact ⟨t', rebuilt, rfl⟩
  | succ n ih =>
      obtain ⟨l, lists⟩ := exists_lists increasing serves split (p.event - 1) (by simp)
      obtain ⟨t₁, rebuilt₁, turn⟩ := decompile_turn w' small back lists rebuilt le_rfl (.inr le_rfl)
        (List.replicate n p ++ rest)
      rw [List.replicate_succ, List.cons_append, turn]
      exact ih rebuilt₁

theorem decompile_filled (n : Nat) {init : List SearchEntry} {p : SearchEntry} (split : s = init ++ [p])
    (start : (s.head?.map fun se => se.event) = some 0) :
    ∃ t', decompile {} (s ++ List.replicate n p) (w ++ w') = some (t', 0) ∧ Rebuilt t t' 0 := by
  have empty : Rebuilt t {} (2 ^ 64) := by
    refine ⟨wellFormed_empty, ?_⟩
    intro channel offset e
    rw [if_neg (by omega)]
    rfl
  obtain ⟨l, lists⟩ := exists_lists increasing serves split (-1) (by simp)
  obtain ⟨t₁, rebuilt₁, turn⟩ := decompile_turn w' small back lists empty p.event.isLt.le (.inl (by decide))
    (List.replicate n p ++ init.reverse)
  obtain ⟨t₂, rebuilt₂, copies⟩ := decompile_copies increasing serves w' small back n split rebuilt₁ init.reverse
  obtain ⟨t₃, rest, rebuilt₃⟩ := decompile_before increasing serves w' small back init.reverse [] p
    (by simpa using split) start rebuilt₂
  refine ⟨t₃, ?_, rebuilt₃⟩
  have order : (s ++ List.replicate n p).reverse = p :: (List.replicate n p ++ init.reverse) := by
    rw [split, List.reverse_append, List.reverse_replicate, List.reverse_append, List.reverse_singleton,
      List.singleton_append, ← List.cons_append, ← List.replicate_succ, List.replicate_succ', List.append_assoc]
    rfl
  rw [decompile, order, turn, copies, rest]

end Image

/-- What `load` reads of the tables that `store` wrote is the table again. -/
theorem load_undoes_store (eca : Hardware) (t : Table) (formed : t.WellFormed) (search : List SearchRegs)
    (walk others : List WalkRegs) (storedSearch : storeSearch eca t.compile.1 = some search)
    (storedWalk : storeWalk eca t.compile.2 = some walk) :
    ∃ t', decompile {} (search.map SearchRegs.load) ((walk ++ others).map WalkRegs.load) = some (t', 0) ∧
      ∀ channel offset e, t'.lookup channel offset e = t.lookup channel offset e := by
  have room : eca.tableSize ≤ 2 ^ 15 := Nat.pow_le_pow_right (by decide) eca.pointers
  have small : t.compile.2.length ≤ 2 ^ 15 := by
    rw [storeWalk] at storedWalk
    split at storedWalk
    · cases storedWalk
    · omega
  have short : t.get.length ≤ 2 ^ 15 := by rw [← compile_length]; exact small
  have increasing := compile_increasing formed short
  have back := compile_back formed short
  have serves := compile_serves formed short
  have start := compile_start formed short
  have walkBack : walk.map WalkRegs.load = t.compile.2 := by
    rw [storeWalk] at storedWalk
    split at storedWalk
    · cases storedWalk
    · apply walkWrites_load _ _ _ _ ?_ storedWalk
      intro we inside
      obtain ⟨i, found⟩ := List.mem_iff_getElem?.mp inside
      have reach := (List.getElem?_eq_some_iff.mp found).1
      rcases back i we found with ended | less
      · exact .inl ended
      · exact .inr (by omega)
  have valid : ∀ se ∈ t.compile.1, se.first = -1 ∨ se.first.toNat < 2 ^ 15 := by
    intro se inside
    obtain ⟨pre, post, split⟩ := List.append_of_mem inside
    have ordered := increasing
    rw [split] at ordered
    have later := (List.pairwise_cons.mp (List.pairwise_append.mp ordered).2.1).1
    obtain ⟨l, lists⟩ := exists_lists increasing serves split se.event
      fun e early x behind => lt_of_le_of_lt early (later x behind)
    rcases lists.chain.valid with ended | reach
    · exact .inl ended
    · exact .inr (by omega)
  unfold storeSearch at storedSearch
  split at storedSearch
  · cases storedSearch
  · split at storedSearch
    · cases storedSearch
    · rename_i se rest found
      split at storedSearch
      · cases storedSearch
      · have split := List.dropLast_append_getLast (List.cons_ne_nil se rest)
        have known : (se :: rest).getLast (List.cons_ne_nil se rest) ∈ t.compile.1 := by
          rw [found]
          exact List.getLast_mem _
        have searchBack := searchWrites_load _ _ _ (by
          intro x inside
          rcases List.mem_append.mp inside with inside | inside
          · exact valid x inside
          · rw [(List.mem_replicate.mp inside).2]
            exact valid _ known) storedSearch
        obtain ⟨t', loaded, -, same⟩ := decompile_filled increasing serves (others.map WalkRegs.load) small back
          (2 * eca.tableSize - t.compile.1.length) (found.trans split.symm) start
        refine ⟨t', ?_, ?_⟩
        · rw [searchBack, List.map_append, walkBack]
          exact loaded
        · intro channel offset e
          rw [same, if_pos (Nat.zero_le _)]

/-- Three ranges through a walker table of four entries whose last one holds something else. -/
theorem load_undoes_store_three :
    let t := run call {} [.add { event := 4, tag := 1, eventBits := 62 }, .add
      { event := 6, tag := 3, channel := 1, eventBits := 64 },
      .add { event := 3, tag := 2, eventBits := 64 }]
    let eca : Hardware := ⟨2, 2, by decide⟩
    let others : List WalkRegs := [⟨0x80000003, 1, 2, 3, 4⟩]
    ∃ (search : List SearchRegs) (walk : List WalkRegs), storeSearch eca t.compile.1 = some search ∧
      storeWalk eca t.compile.2 = some walk ∧
      search.length = 8 ∧ walk.length = 3 ∧
      ∃ t', decompile {} (search.map SearchRegs.load) ((walk ++ others).map WalkRegs.load) = some (t', 0) ∧
        ∀ channel offset e, t'.lookup channel offset e = t.lookup channel offset e := by
  intro t eca others
  have fits : Along call Fits {} [.add { event := 4, tag := 1, eventBits := 62 },
      .add { event := 6, tag := 3, channel := 1, eventBits := 64 }, .add
        { event := 3, tag := 2, eventBits := 64 }] := by
    decide
  have formed : t.WellFormed := fits.invariant WellFormed call_formed wellFormed_empty
  have stored : (storeSearch eca t.compile.1).map List.length = some 8 := by decide
  have stored' : (storeWalk eca t.compile.2).map List.length = some 3 := by decide
  obtain ⟨search, written, length⟩ := Option.map_eq_some_iff.mp stored
  obtain ⟨walk, written', length'⟩ := Option.map_eq_some_iff.mp stored'
  exact ⟨search, walk, written, written', length, length',
    load_undoes_store eca t formed search walk others written written'⟩

end Table

end WrCores.EcaLib
