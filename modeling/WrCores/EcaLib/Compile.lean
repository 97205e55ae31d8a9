import WrCores.EcaLib.Records

/-!
`Table::Impl::compile`: the sorted entries are swept once. The stacks `ends` and `next` hold the blocks that
are open at `index`, the innermost on top; blocks are nested, so those that end first are on top. A search
entry is put down wherever a block starts or ends, and its list is the stack.
-/

namespace WrCores.EcaLib

open Clocked PowTwo Ordered

abbrev Index := BitVec 16

structure SearchEntry where
  event : Event
  first : Index
  deriving DecidableEq, Repr

structure WalkEntry where
  offset : Time
  tag : Tag
  next : Index
  channel : Channel
  deriving DecidableEq, Repr

/-- The vectors of `compile`; the back of a stack is the head of its list. -/
structure Sweep where
  s : List SearchEntry := []
  w : List WalkEntry := []
  ends : List Event := []
  next : List Index := []
  deriving DecidableEq, Repr

namespace Sweep

/-- `next.empty()?-1:next.back()`. -/
def top (next : List Index) : Index := next.headD (-1)

def pushRecord (st : Sweep) (te : TableEntry) : Sweep where
  s := st.s
  w := st.w ++ [⟨te.offset, te.tag, top st.next, te.channel⟩]
  ends := (te.event ||| ecaEncodeMask te.eventBits) :: st.ends
  next := BitVec.ofNat 16 st.w.length :: st.next

/-- The entries from `ti` on and the vectors, after the records at `index` were pushed. -/
def pushRecords (index : Event) : List TableEntry → Sweep → List TableEntry × Sweep
  | [], st => ([], st)
  | te :: rest, st => if te.event = index then pushRecords index rest (st.pushRecord te) else (te :: rest, st)

def popRecords (index : Event) : List Event → List Index → List Event × List Index
  | last :: ends, i :: next => if last = index then popRecords index ends next else (last :: ends, i :: next)
  | ends, next => (ends, next)

/-- The records are popped when the innermost one ends before the next entry starts. -/
def pops : List Event → List TableEntry → Option Event
  | [], _ => none
  | last :: _, [] => some last
  | last :: _, te :: _ => if last < te.event then some last else none

def compileLoop : Nat → Event → List TableEntry → Sweep → Sweep
  | 0, _, _, st => st
  | fuel + 1, index, t, st =>
      let pushed := pushRecords index t st
      let t := pushed.1
      let st := { pushed.2 with s := pushed.2.s ++ [⟨index, top pushed.2.next⟩] }
      match pops st.ends t with
      | some last =>
          let popped := popRecords last st.ends st.next
          let st := { st with ends := popped.1, next := popped.2 }
          if last + 1 = 0 then st else compileLoop fuel (last + 1) t st
      | none =>
          match t with
          | te :: _ => compileLoop fuel te.event t st
          | [] => st

end Sweep

/-- A turn of the loop pushes an entry, pops one or moves to the next one, so this many are enough. -/
def Table.compile (t : Table) : List SearchEntry × List WalkEntry :=
  let st := Sweep.compileLoop (2 * t.get.length + 1) 0 t.get {}
  (st.s, st.w)

/-- Following the list from an index visits these actions. -/
inductive Chain (w : List WalkEntry) : Index → List Action → Prop where
  | done : Chain w (-1) []
  | visit {i : Index} {we : WalkEntry} {rest : List Action} (valid : i ≠ -1) (found : w[i.toNat]? = some we)
      (behind : Chain w we.next rest) : Chain w i (⟨we.offset, we.tag, we.channel⟩ :: rest)

theorem Chain.append {w : List WalkEntry} {i : Index} {l : List Action} (chain : Chain w i l) (w' : List WalkEntry) :
    Chain (w ++ w') i l := by
  induction chain with
  | done => exact .done
  | visit valid found behind ih =>
      refine .visit valid ?_ ih
      rw [List.getElem?_append_left (List.getElem?_eq_some_iff.mp found).1, found]

namespace Sweep

/-- The stacks hold these entries, each linked to the one below it. -/
inductive Linked (w : List WalkEntry) : List Event → List Index → List TableEntry → Prop where
  | nil : Linked w [] [] []
  | cons {i : Index} {te : TableEntry} {ends : List Event} {next : List Index} {stack : List TableEntry}
      (valid : i ≠ -1) (found : w[i.toNat]? = some ⟨te.offset, te.tag, top next, te.channel⟩)
      (below : Linked w ends next stack) : Linked w (te.last :: ends) (i :: next) (te :: stack)

variable {w : List WalkEntry} {ends : List Event} {next : List Index} {stack : List TableEntry}

theorem Linked.chain (linked : Linked w ends next stack) : Chain w (top next) (stack.map (·.action)) := by
  induction linked with
  | nil => exact .done
  | cons valid found below ih => exact .visit valid found ih

theorem Linked.append (linked : Linked w ends next stack) (w' : List WalkEntry) :
    Linked (w ++ w') ends next stack := by
  induction linked with
  | nil => exact .nil
  | cons valid found below ih =>
      refine .cons valid ?_ ih
      rw [List.getElem?_append_left (List.getElem?_eq_some_iff.mp found).1, found]

theorem Linked.pop (linked : Linked w ends next stack) (index : Event) :
    Linked w (popRecords index ends next).1 (popRecords index ends next).2
      (stack.dropWhile fun te => te.last = index) := by
  induction linked with
  | nil => exact .nil
  | @cons i te ends next stack valid found below ih =>
      rw [popRecords, List.dropWhile_cons]
      by_cases ended : te.last = index
      · rw [if_pos ended, if_pos (by simpa using ended)]
        exact ih
      · rw [if_neg ended, if_neg (by simpa using ended)]
        exact .cons valid found below

theorem Linked.ends_eq (linked : Linked w ends next stack) : ends = stack.map (·.last) := by
  induction linked with
  | nil => rfl
  | cons valid found below ih => rw [ih]; rfl

/-! ### The sweep -/

/-- The turn of the loop at `index`: `done` was pushed, `rest` was not, and the entries that are open at
`index` are on the stack. -/
structure Swept (l : List TableEntry) (index : Event) (done rest stack : List TableEntry) (st : Sweep) : Prop where
  split : l = done ++ rest
  past : ∀ te ∈ done, te.event ≤ index
  later : ∀ te ∈ rest, index ≤ te.event
  opened : stack.reverse = done.filter fun te => index ≤ te.last
  nested : stack.Pairwise fun a b => a.last ≤ b.last
  linked : Linked st.w st.ends st.next stack
  length : st.w.length = done.length
  back : ∀ (i : Nat) (we : WalkEntry), st.w[i]? = some we → we.next = -1 ∨ we.next.toNat < i
  heads : ∀ i ∈ st.next, i.toNat < st.w.length

/-- The search entry with the largest event up to `e` has a list of the actions at `e`. -/
def Answers (s : List SearchEntry) (w : List WalkEntry) (l : List TableEntry) (e : Event) : Prop :=
  ∃ se ∈ s, se.event ≤ e ∧ (∀ other ∈ s, other.event ≤ e → other.event ≤ se.event) ∧
    ∃ visited, Chain w se.first visited ∧ visited.Perm (Table.actionsAt l e)

/-- The search entries so far are for the events below `bound`. -/
structure Answered (l : List TableEntry) (bound : Nat) (st : Sweep) : Prop where
  start : (st.s = [] ∧ bound = 0) ∨ (st.s.head?.map fun se => se.event) = some 0
  increasing : st.s.Pairwise fun a b => a.event < b.event
  below : ∀ se ∈ st.s, se.event.toNat < bound
  answers : ∀ e : Event, e.toNat < bound → Answers st.s st.w l e

/-- Of two blocks with an event in common the later one is the inner one. -/
theorem inner {a b : TableEntry} (left : ∃ k, a.Aligned k) (right : ∃ k, b.Aligned k) (ordered : a.key ≤ b.key)
    (meets : b.event ≤ a.last) : b.last ≤ a.last := by
  obtain ⟨j, left⟩ := left
  obtain ⟨k, right⟩ := right
  have pos : 0 < 2 ^ j := Nat.two_pow_pos j
  have pos' : 0 < 2 ^ k := Nat.two_pow_pos k
  rw [BitVec.le_def, left.last_eq, left.end_eq] at meets
  rw [BitVec.le_def, left.last_eq, left.end_eq, right.last_eq, right.end_eq]
  have bits := left.bits
  have bits' := right.bits
  have small := left.small
  have small' := right.small
  have order := key_le ordered
  simp only [BitVec.lt_def, BitVec.le_def] at order
  have starts : a.event.toNat ≤ b.event.toNat := by
    rcases order with less | ⟨same, -⟩
    · exact less.le
    · rw [same]
  by_cases smaller : k ≤ j
  · have := nested right.start left.start ⟨le_rfl, by omega⟩ ⟨starts, by omega⟩ smaller
    omega
  · have inside := nested (e := b.event.toNat) left.start right.start ⟨starts, by omega⟩ ⟨le_rfl, by omega⟩ (by omega)
    rcases order with less | ⟨-, less⟩
    · omega
    · omega

/-- What the sweep is given: a sorted list of blocks, short enough for the indices. -/
structure Sweepable (l : List TableEntry) : Prop where
  sorted : l.Pairwise fun a b => a.key ≤ b.key
  aligned : ∀ te ∈ l, ∃ k, te.Aligned k
  short : l.length ≤ 2 ^ 15

theorem event_le_last {te : TableEntry} (block : ∃ k, te.Aligned k) : te.event ≤ te.last := by
  obtain ⟨k, block⟩ := block
  rw [← block.first_eq]
  exact te.ordered

/-- Zero when the next entry starts at `index`. -/
def waits (index : Event) : List TableEntry → Nat
  | [] => 1
  | te :: _ => if te.event = index then 0 else 1

theorem waits_le (index : Event) (rest : List TableEntry) : waits index rest ≤ 1 := by
  cases rest with
  | nil => exact le_rfl
  | cons te rest =>
      rw [waits]
      split <;> omega

/-- Pushing moves entries from the list to the vectors. -/
theorem pushRecords_count (index : Event) (rest : List TableEntry) (st : Sweep) :
    (pushRecords index rest st).1.length + (pushRecords index rest st).2.w.length = rest.length + st.w.length ∧
    (pushRecords index rest st).1.length + (pushRecords index rest st).2.ends.length =
      rest.length + st.ends.length ∧
    (pushRecords index rest st).1.length + (pushRecords index rest st).2.next.length =
      rest.length + st.next.length ∧
    (pushRecords index rest st).1.length + 1 ≤ rest.length + waits index rest := by
  induction rest generalizing st with
  | nil => exact ⟨rfl, rfl, rfl, le_rfl⟩
  | cons te rest ih =>
      rw [pushRecords]
      by_cases here : te.event = index
      · rw [if_pos here]
        obtain ⟨w, ends, next, less⟩ := ih (st.pushRecord te)
        have waits' := waits_le index rest
        have walk : (st.pushRecord te).w.length = st.w.length + 1 := by simp [pushRecord]
        have stack : (st.pushRecord te).ends.length = st.ends.length + 1 := rfl
        have indices : (st.pushRecord te).next.length = st.next.length + 1 := rfl
        simp only [List.length_cons]
        omega
      · rw [if_neg here]
        simp [waits, here]

theorem popRecords_count (last : Event) (ends : List Event) (next : List Index)
    (balanced : ends.length = next.length) :
    (popRecords last ends next).1.length = (popRecords last ends next).2.length ∧
    (popRecords last ends next).1.length ≤ ends.length := by
  induction ends generalizing next with
  | nil => simpa [popRecords] using balanced
  | cons first ends ih =>
      cases next with
      | nil => simp at balanced
      | cons i next =>
          rw [popRecords]
          split
          · have := ih next (by simpa using balanced)
            simp only [List.length_cons]
            omega
          · exact ⟨balanced, le_rfl⟩

/-- All entries are written to the walker table. -/
theorem compileLoop_length (fuel : Nat) (index : Event) (rest : List TableEntry) (st : Sweep)
    (balanced : st.ends.length = st.next.length)
    (enough : 2 * rest.length + st.ends.length + waits index rest ≤ fuel) :
    (compileLoop fuel index rest st).w.length = rest.length + st.w.length := by
  induction fuel generalizing index rest st with
  | zero =>
      cases rest with
      | nil => simp [waits] at enough
      | cons te rest => simp at enough
  | succ fuel ih =>
      obtain ⟨w, ends, next, less⟩ := pushRecords_count index rest st
      rw [compileLoop]
      generalize pushRecords index rest st = pushed at *
      obtain ⟨rest', st'⟩ := pushed
      simp only at *
      cases found : pops st'.ends rest' with
      | some last =>
          cases open_ : st'.ends with
          | nil => simp [open_, pops] at found
          | cons head others =>
              cases chain : st'.next with
              | nil =>
                  simp only [open_, chain, List.length_cons, List.length_nil] at ends next
                  omega
              | cons i next' =>
                  simp only [open_, chain, List.length_cons] at ends next
                  have same : head = last := by
                    rw [open_] at found
                    cases rest' with
                    | nil => simpa [pops] using found
                    | cons te rest' =>
                        rw [pops] at found
                        split at found
                        · simpa using found
                        · simp at found
                  have count := popRecords_count last others next' (by omega)
                  simp only [popRecords, same, if_true]
                  split
                  · rename_i full
                    -- no entry starts behind the last event
                    cases rest' with
                    | nil => simpa using w
                    | cons te rest' =>
                        rw [open_, pops] at found
                        split at found
                        · bv_omega
                        · simp at found
                  · have := waits_le (last + 1) rest'
                    rw [ih (last + 1) rest' _ count.1 (by simp only; omega)]
                    simpa using w
      | none =>
          simp only
          cases rest' with
          | nil => simpa using w
          | cons te rest' =>
              simp only
              rw [ih te.event (te :: rest') _ (by simp only; omega) (by simp only [waits, if_true]; omega)]
              simpa using w

section Turn

variable {l done rest : List TableEntry} {index : Event} {st : Sweep} (given : Sweepable l)

include given

theorem Swept.push {te : TableEntry} (swept : Swept l index done (te :: rest) stack st) (here : te.event = index) :
    Swept l index (done ++ [te]) rest (te :: stack) (st.pushRecord te) := by
  have split := swept.split
  have block : ∃ k, te.Aligned k := given.aligned te (by simp [split])
  have small : st.w.length < 2 ^ 15 := by
    have short := given.short
    rw [split, List.length_append, List.length_cons] at short
    rw [swept.length]
    omega
  have index_eq : (BitVec.ofNat 16 st.w.length).toNat = st.w.length := by
    rw [BitVec.toNat_ofNat]
    omega
  constructor
  · rw [split]
    simp
  · intro b inside
    rcases List.mem_append.mp inside with inside | inside
    · exact swept.past b inside
    · rw [List.mem_singleton.mp inside, here]
  · intro b inside
    exact swept.later b (by simp [inside])
  · have open_ : index ≤ te.last := here ▸ event_le_last block
    simp [swept.opened, open_]
  · refine List.pairwise_cons.mpr ⟨?_, swept.nested⟩
    intro b inside
    have held : b ∈ done.filter fun te => index ≤ te.last := by
      rw [← swept.opened]
      simpa using inside
    obtain ⟨known, reaches⟩ := List.mem_filter.mp held
    have sorted := given.sorted
    rw [split] at sorted
    have before := (List.pairwise_append.mp sorted).2.2 b known te (by simp)
    refine inner (given.aligned b (by simp [split, known])) block before ?_
    rw [here]
    simpa using reaches
  · obtain ⟨k, aligned⟩ := block
    rw [pushRecord, ← aligned.last_eq]
    refine .cons ?_ ?_ (swept.linked.append _)
    · intro none
      have := congrArg BitVec.toNat none
      rw [index_eq] at this
      simp at this
      omega
    · simp [index_eq]
  · simp [pushRecord, swept.length]
  · intro i we found
    simp only [pushRecord, List.getElem?_append] at found
    split at found
    · exact swept.back i we found
    · rename_i far
      rw [List.getElem?_singleton] at found
      split at found
      · cases found
        simp only [top]
        cases next : st.next with
        | nil => exact .inl rfl
        | cons head _ =>
            right
            have := swept.heads head (by simp [next])
            simp only [List.headD_cons]
            omega
      · simp at found
  · intro i inside
    simp only [pushRecord, List.length_append, List.length_singleton] at inside ⊢
    rcases List.mem_cons.mp inside with rfl | inside
    · rw [index_eq]
      omega
    · have := swept.heads i inside
      omega

theorem Swept.pushes (swept : Swept l index done rest stack st) :
    ∃ done' stack', Swept l index done' (pushRecords index rest st).1 stack' (pushRecords index rest st).2 ∧
      (∀ te ∈ (pushRecords index rest st).1, index < te.event) ∧
      (pushRecords index rest st).2.s = st.s ∧ ∃ w', (pushRecords index rest st).2.w = st.w ++ w' := by
  induction rest generalizing done stack st with
  | nil => exact ⟨done, stack, swept, by simp [pushRecords], rfl, [], by simp [pushRecords]⟩
  | cons te rest ih =>
      rw [pushRecords]
      by_cases here : te.event = index
      · rw [if_pos here]
        obtain ⟨done', stack', swept', strict, same, w', grown⟩ := ih (swept.push given here)
        exact ⟨done', stack', swept', strict, same, _, grown.trans (List.append_assoc ..)⟩
      · rw [if_neg here]
        refine ⟨done, stack, swept, ?_, rfl, [], by simp⟩
        · intro b inside
          have start : index < te.event := lt_of_le_of_ne (swept.later te (by simp)) (Ne.symm here)
          rcases List.mem_cons.mp inside with rfl | inside
          · exact start
          · have sorted := given.sorted
            rw [swept.split] at sorted
            have order := (List.pairwise_cons.mp (List.pairwise_append.mp sorted).2.1).1 b inside
            rcases key_le order with less | ⟨same, -⟩
            · exact lt_trans start less
            · exact same ▸ start

/-- Up to the first end on the stack and the next start the open entries stay the same. -/
theorem Swept.actions (swept : Swept l index done rest stack st) {e : Event} (low : index ≤ e)
    (inside : ∀ te ∈ stack, e ≤ te.last) (before : ∀ te ∈ rest, e < te.event) :
    (stack.map (·.action)).Perm (Table.actionsAt l e) := by
  have split := swept.split
  have covers (te : TableEntry) (known : te ∈ l) : te.Covers e ↔ te.event ≤ e ∧ e ≤ te.last := by
    obtain ⟨k, block⟩ := given.aligned te known
    rw [TableEntry.Covers, block.first_eq]
  have none : (rest.filter fun te => te.Covers e) = [] := by
    rw [List.filter_eq_nil_iff]
    intro te known
    rw [decide_eq_true_eq, covers te (by simp [split, known])]
    exact fun both => absurd both.1 (not_le.mpr (before te known))
  have same : (done.filter fun te => te.Covers e) = done.filter fun te => index ≤ te.last := by
    apply List.filter_congr
    intro te known
    rw [decide_eq_decide, covers te (by simp [split, known])]
    constructor
    · exact fun both => le_trans low both.2
    · intro reaches
      have held : te ∈ stack.reverse := by
        rw [swept.opened, List.mem_filter]
        exact ⟨known, by simpa using reaches⟩
      exact ⟨le_trans (swept.past te known) low, inside te (by simpa using held)⟩
  rw [Table.actionsAt, split, List.filter_append, none, List.append_nil, same, ← swept.opened, List.map_reverse]
  exact (List.reverse_perm _).symm

theorem Swept.search (swept : Swept l index done rest stack st) (answered : Answered l index.toNat st) (bound : Nat)
    (more : index.toNat < bound) (inside : ∀ te ∈ stack, bound ≤ te.last.toNat + 1)
    (before : ∀ te ∈ rest, bound ≤ te.event.toNat) :
    Answered l bound { st with s := st.s ++ [⟨index, top st.next⟩] } := by
  constructor
  · right
    rcases answered.start with ⟨none, zero⟩ | start
    · have bottom : index = 0 := BitVec.eq_of_toNat_eq (by simpa using zero)
      simp [none, bottom]
    · cases first : st.s with
      | nil => simp [first] at start
      | cons se _ => simpa [first] using start
  · refine List.pairwise_append.mpr ⟨answered.increasing, List.pairwise_singleton _ _, ?_⟩
    intro a left b right
    rw [List.mem_singleton.mp right, BitVec.lt_def]
    exact answered.below a left
  · intro se known
    rcases List.mem_append.mp known with known | known
    · exact lt_trans (answered.below se known) more
    · rw [List.mem_singleton.mp known]
      exact more
  · intro e small
    by_cases old : e.toNat < index.toNat
    · obtain ⟨se, known, low, largest, rest⟩ := answered.answers e old
      refine ⟨se, by simp [known], low, ?_, rest⟩
      intro other found reach
      rcases List.mem_append.mp found with found | found
      · exact largest other found reach
      · rw [List.mem_singleton.mp found, BitVec.le_def] at reach
        simp only at reach
        omega
    · refine ⟨⟨index, top st.next⟩, by simp, BitVec.le_def.mpr (Nat.le_of_not_lt old), ?_,
        stack.map (·.action), swept.linked.chain, ?_⟩
      · intro other found reach
        rcases List.mem_append.mp found with found | found
        · exact BitVec.le_def.mpr (answered.below other found).le
        · rw [List.mem_singleton.mp found]
      · apply swept.actions given (BitVec.le_def.mpr (Nat.le_of_not_lt old))
        · intro te held
          have := inside te held
          rw [BitVec.le_def]
          omega
        · intro te held
          have := before te held
          rw [BitVec.lt_def]
          omega

omit given in
/-- The entries that are still open at a later index. -/
theorem Swept.move (swept : Swept l index done rest stack st) {index' : Event} (more : index < index')
    (later : ∀ te ∈ rest, index' ≤ te.event) {s : List SearchEntry} {ends : List Event} {next : List Index}
    (linked : Linked st.w ends next (stack.filter fun te => index' ≤ te.last)) (fewer : ∀ i ∈ next, i ∈ st.next) :
    Swept l index' done rest (stack.filter fun te => index' ≤ te.last) ⟨s, st.w, ends, next⟩ := by
  constructor
  · exact swept.split
  · intro te known
    exact le_trans (swept.past te known) more.le
  · exact later
  · rw [← List.filter_reverse, swept.opened, List.filter_filter]
    apply List.filter_congr
    intro te _
    by_cases reaches : index' ≤ te.last
    · simp [reaches, le_trans more.le reaches]
    · simp [reaches]
  · exact swept.nested.filter _
  · exact linked
  · exact swept.length
  · exact swept.back
  · intro i inside
    exact swept.heads i (fewer i inside)

omit given in
theorem mem_popRecords {index : Event} {i : Index} (ends : List Event) (next : List Index)
    (inside : i ∈ (popRecords index ends next).2) : i ∈ next := by
  induction ends generalizing next with
  | nil => simpa [popRecords] using inside
  | cons last ends ih =>
      cases next with
      | nil => simp [popRecords] at inside
      | cons head next =>
          rw [popRecords] at inside
          split at inside
          · exact List.mem_cons_of_mem _ (ih next inside)
          · exact inside

omit given in
/-- The entries on top that end at `index` are all that do. -/
theorem dropWhile_ended {index : Event} (stack : List TableEntry) (nested : stack.Pairwise fun a b => a.last ≤ b.last)
    (reach : ∀ te ∈ stack, index ≤ te.last) (more : index < index + 1) :
    (stack.dropWhile fun te => te.last = index) = stack.filter fun te => index + 1 ≤ te.last := by
  induction stack with
  | nil => rfl
  | cons te stack ih =>
      obtain ⟨low, tail⟩ := List.pairwise_cons.mp nested
      rw [List.dropWhile_cons, List.filter_cons]
      by_cases ended : te.last = index
      · have closed : ¬index + 1 ≤ te.last := by rw [ended]; exact not_le.mpr more
        rw [if_pos (by simpa using ended), if_neg (by simpa using closed)]
        exact ih tail fun b inside => reach b (by simp [inside])
      · have own := reach te (by simp)
        have still : index + 1 ≤ te.last := by bv_omega
        rw [if_neg (by simpa using ended), if_pos (by simpa using still)]
        congr 1
        symm
        rw [List.filter_eq_self]
        intro b inside
        have := low b inside
        simpa using le_trans still this

omit given in
theorem Answered.grow {bound : Nat} {st' : Sweep} (answered : Answered l bound st) (same : st'.s = st.s)
    (grown : ∃ w', st'.w = st.w ++ w') : Answered l bound st' := by
  obtain ⟨w', grown⟩ := grown
  constructor
  · rw [same]
    exact answered.start
  · rw [same]
    exact answered.increasing
  · rw [same]
    exact answered.below
  · intro e small
    obtain ⟨se, known, low, largest, visited, chain, perm⟩ := answered.answers e small
    rw [Answers, same, grown]
    exact ⟨se, known, low, largest, visited, chain.append w', perm⟩

theorem Swept.least {te : TableEntry} (swept : Swept l index done (te :: rest) stack st) :
    ∀ b ∈ te :: rest, te.event ≤ b.event := by
  intro b inside
  rcases List.mem_cons.mp inside with rfl | inside
  · exact le_rfl
  · have sorted := given.sorted
    rw [swept.split] at sorted
    have order := (List.pairwise_cons.mp (List.pairwise_append.mp sorted).2.1).1 b inside
    rcases key_le order with less | ⟨same, -⟩
    · exact less.le
    · exact same.le

omit given in
theorem Swept.reaches (swept : Swept l index done rest stack st) : ∀ te ∈ stack, index ≤ te.last := by
  intro te inside
  have held : te ∈ done.filter fun te => index ≤ te.last := by
    rw [← swept.opened]
    simpa using inside
  simpa using (List.mem_filter.mp held).2

/-- What the tables must be. -/
def Compiled (l : List TableEntry) (st : Sweep) : Prop :=
  Answered l (2 ^ 64) st ∧ ∀ (i : Nat) (we : WalkEntry), st.w[i]? = some we → we.next = -1 ∨ we.next.toNat < i

/-- The turn pops the entries that end first. -/
theorem Swept.pop {top : TableEntry} (swept : Swept l index done rest (top :: stack) st)
    (answered : Answered l index.toNat st) (before : ∀ te ∈ rest, top.last < te.event) :
    let popped := popRecords top.last st.ends st.next
    let st' : Sweep := ⟨st.s ++ [⟨index, Sweep.top st.next⟩], st.w, popped.1, popped.2⟩
    Answered l (top.last.toNat + 1) st' ∧ popped.1.length ≤ stack.length ∧
      (top.last + 1 ≠ 0 → ∃ stack', Swept l (top.last + 1) done rest stack' st') := by
  intro popped st'
  have low := (List.pairwise_cons.mp swept.nested).1
  have open_ := swept.reaches top (by simp)
  have all : ∀ te ∈ top :: stack, top.last ≤ te.last := by
    intro te inside
    rcases List.mem_cons.mp inside with rfl | inside
    · exact le_rfl
    · exact low te inside
  have linked := swept.linked.pop top.last
  refine ⟨?_, ?_, ?_⟩
  · refine (swept.search given answered (top.last.toNat + 1) ?_ ?_ ?_).grow rfl ⟨[], by simp [st']⟩
    · rw [BitVec.le_def] at open_
      omega
    · intro te inside
      have := all te inside
      rw [BitVec.le_def] at this
      omega
    · intro te inside
      have := before te inside
      rw [BitVec.lt_def] at this
      omega
  · rw [linked.ends_eq, List.length_map, List.dropWhile_cons, if_pos (by simp)]
    exact (List.dropWhile_sublist _).length_le
  · intro more
    have step : top.last < top.last + 1 := by bv_omega
    rw [dropWhile_ended _ swept.nested all step] at linked
    refine ⟨_, swept.move (lt_of_le_of_lt open_ step) ?_ linked fun i inside => mem_popRecords _ _ inside⟩
    intro te inside
    have := before te inside
    bv_omega

/-- The turn goes on to the next entry. -/
theorem Swept.advance {te : TableEntry} (swept : Swept l index done (te :: rest) stack st)
    (answered : Answered l index.toNat st) (strict : index < te.event) (before : ∀ b ∈ stack, te.event ≤ b.last) :
    let st' : Sweep := ⟨st.s ++ [⟨index, Sweep.top st.next⟩], st.w, st.ends, st.next⟩
    Answered l te.event.toNat st' ∧ Swept l te.event done (te :: rest) stack st' := by
  intro st'
  have least := swept.least given
  constructor
  · refine swept.search given answered _ (BitVec.lt_def.mp strict) ?_ ?_
    · intro b inside
      have := before b inside
      rw [BitVec.le_def] at this
      omega
    · intro b inside
      exact BitVec.le_def.mp (least b inside)
  · have all : (stack.filter fun b => te.event ≤ b.last) = stack := by
      rw [List.filter_eq_self]
      intro b inside
      simpa using before b inside
    have moved := swept.move (s := st.s ++ [⟨index, Sweep.top st.next⟩]) strict least
      (by rw [all]; exact swept.linked) fun i inside => inside
    rw [all] at moved
    exact moved

theorem compileLoop_spec (fuel : Nat) (swept : Swept l index done rest stack st)
    (answered : Answered l index.toNat st)
    (enough : 2 * rest.length + st.ends.length + waits index rest ≤ fuel) :
    Compiled l (compileLoop fuel index rest st) := by
  induction fuel generalizing index done rest stack st with
  | zero =>
      cases rest with
      | nil => simp [waits] at enough
      | cons te rest => simp at enough
  | succ fuel ih =>
      obtain ⟨done', stack', swept', strict, same, grown⟩ := swept.pushes given
      obtain ⟨-, count, -, less⟩ := pushRecords_count index rest st
      have answered' := answered.grow same grown
      rw [compileLoop]
      generalize pushRecords index rest st = pushed at *
      obtain ⟨rest', st'⟩ := pushed
      simp only at *
      have ends := swept'.linked.ends_eq
      cases stack' with
      | nil =>
          rw [List.map_nil] at ends
          cases rest' with
          | nil =>
              rw [ends]
              simp only [pops]
              refine ⟨(swept'.search given answered' (2 ^ 64) ?_ (by simp) (by simp)).grow rfl ⟨[], by simp⟩,
                swept'.back⟩
              exact index.isLt
          | cons te rest' =>
              rw [ends]
              simp only [pops]
              obtain ⟨next, moved⟩ := swept'.advance given answered' (strict te (by simp)) (by simp)
              rw [ends] at next moved
              apply ih moved next
              rw [ends] at count
              simp only [waits, if_true, List.length_cons, List.length_nil] at *
              omega
      | cons top stack' =>
          rw [List.map_cons] at ends
          -- both ways of popping: behind the last entry and before the next one
          have popping (before : ∀ te ∈ rest', top.last < te.event) :
              Compiled l (if top.last + 1 = 0 then
                  ⟨st'.s ++ [⟨index, Sweep.top st'.next⟩], st'.w, (popRecords top.last st'.ends st'.next).1,
                    (popRecords top.last st'.ends st'.next).2⟩
                else compileLoop fuel (top.last + 1) rest'
                  ⟨st'.s ++ [⟨index, Sweep.top st'.next⟩], st'.w, (popRecords top.last st'.ends st'.next).1,
                    (popRecords top.last st'.ends st'.next).2⟩) := by
            obtain ⟨next, fewer, moved⟩ := swept'.pop given answered' before
            rcases succ_toNat top.last with ⟨full, bound⟩ | ⟨more, bound⟩
            · rw [if_pos full]
              rw [bound] at next
              exact ⟨next, swept'.back⟩
            · rw [if_neg more]
              rw [← bound] at next
              obtain ⟨_, moved⟩ := moved more
              apply ih moved next
              have waits' := waits_le (top.last + 1) rest'
              have size : st'.ends.length = stack'.length + 1 := by rw [ends]; simp
              simp only
              omega
          cases rest' with
          | nil =>
              have pops' : pops st'.ends [] = some top.last := by rw [ends]; rfl
              simp only [pops']
              exact popping (by simp)
          | cons te rest' =>
              by_cases first : top.last < te.event
              · have pops' : pops st'.ends (te :: rest') = some top.last := by rw [ends, pops, if_pos first]
                simp only [pops']
                apply popping
                intro b inside
                exact lt_of_lt_of_le first (swept'.least given b inside)
              · have pops' : pops st'.ends (te :: rest') = none := by rw [ends, pops, if_neg first]
                simp only [pops']
                have low := (List.pairwise_cons.mp swept'.nested).1
                obtain ⟨next, moved⟩ := swept'.advance given answered' (strict te (by simp)) (by
                  intro b inside
                  rcases List.mem_cons.mp inside with rfl | inside
                  · exact not_lt.mp first
                  · exact le_trans (not_lt.mp first) (low b inside))
                apply ih moved next
                simp only [waits, if_true]
                omega

end Turn

end Sweep

namespace Table

theorem get_sweepable {t : Table} (formed : t.WellFormed) (short : t.get.length ≤ 2 ^ 15) :
    Sweep.Sweepable t.get where
  sorted := t.get_sorted
  aligned _ inside := mem_records_aligned formed (t.get_perm.mem_iff.mp inside)
  short := short

theorem compiled {t : Table} (formed : t.WellFormed) (short : t.get.length ≤ 2 ^ 15) :
    Sweep.Compiled t.get (Sweep.compileLoop (2 * t.get.length + 1) 0 t.get {}) := by
  have start : Sweep.Swept t.get 0 [] t.get [] {} := by
    constructor
    case later => exact fun te _ => BitVec.le_def.mpr (Nat.zero_le _)
    case linked => exact .nil
    all_goals simp
  apply Sweep.compileLoop_spec (get_sweepable formed short) (2 * t.get.length + 1) start
  · constructor <;> simp
  · have := Sweep.waits_le 0 t.get
    simp
    omega

/-- The list that a search for the event finds has its actions. -/
def Serves (t : Table) (s : List SearchEntry) (w : List WalkEntry) (e : Event) : Prop :=
  ∃ se ∈ s, se.event ≤ e ∧ (∀ other ∈ s, other.event ≤ e → other.event ≤ se.event) ∧
    ∃ visited, Chain w se.first visited ∧ visited.Nodup ∧
      ∀ a : Action, a ∈ visited ↔ t.lookup a.channel a.offset e = some a.tag

theorem compile_serves {t : Table} (formed : t.WellFormed) (short : t.get.length ≤ 2 ^ 15) (e : Event) :
    t.Serves t.compile.1 t.compile.2 e := by
  obtain ⟨se, known, low, largest, visited, chain, perm⟩ := (compiled formed short).1.answers e e.isLt
  have same : visited.Perm (actionsAt t.records e) := perm.trans ((t.get_perm.filter _).map _)
  refine ⟨se, known, low, largest, visited, chain, ?_, ?_⟩
  · exact same.nodup_iff.mpr (nodup_actionsAt e formed)
  · intro a
    rw [same.mem_iff]
    exact mem_actionsAt e formed a

theorem compile_start {t : Table} (formed : t.WellFormed) (short : t.get.length ≤ 2 ^ 15) :
    (t.compile.1.head?.map fun se => se.event) = some 0 := by
  rcases (compiled formed short).1.start with ⟨-, none⟩ | start
  · simp at none
  · exact start

theorem compile_increasing {t : Table} (formed : t.WellFormed) (short : t.get.length ≤ 2 ^ 15) :
    t.compile.1.Pairwise fun a b => a.event < b.event := (compiled formed short).1.increasing

theorem compile_back {t : Table} (formed : t.WellFormed) (short : t.get.length ≤ 2 ^ 15) (i : Nat) (we : WalkEntry)
    (found : t.compile.2[i]? = some we) : we.next = -1 ∨ we.next.toNat < i := (compiled formed short).2 i we found

theorem compile_length (t : Table) : t.compile.2.length = t.get.length := by
  have waits := Sweep.waits_le 0 t.get
  have length := Sweep.compileLoop_length (2 * t.get.length + 1) 0 t.get {} rfl
    (by simp only [List.length_nil]; omega)
  rw [List.length_nil, Nat.add_zero] at length
  exact length

/-- The compiled tables have the actions of the table, for every event. -/
theorem compile_preserves (t : Table) (formed : t.WellFormed) (short : t.get.length ≤ 32767) :
    (t.compile.1.head?.map fun se => se.event) = some 0 ∧
    (t.compile.1.Pairwise fun a b => a.event < b.event) ∧
    (∀ (i : Nat) (we : WalkEntry), t.compile.2[i]? = some we → we.next = -1 ∨ we.next.toNat < i) ∧
    ∀ e, t.Serves t.compile.1 t.compile.2 e := by
  have room : t.get.length ≤ 2 ^ 15 := by omega
  exact ⟨compile_start formed room, compile_increasing formed room, compile_back formed room,
    compile_serves formed room⟩

/-- A range of three blocks, inside it one of another channel. -/
theorem compile_preserves_nested :
    let t := run call {} [.add { event := 4, tag := 1, eventBits := 62 }, .add
      { event := 8, tag := 1, eventBits := 63 },
      .add { event := 3, tag := 1, eventBits := 64 }, .add { event := 5, tag := 2, channel := 1, eventBits := 64 }]
    t.get.length = 4 ∧ t.compile.1.map (·.event) = [0, 3, 4, 5, 6, 8, 10] ∧ t.Serves t.compile.1 t.compile.2 5 := by
  intro t
  have fits : Along call Fits {} [.add { event := 4, tag := 1, eventBits := 62 },
      .add { event := 8, tag := 1, eventBits := 63 }, .add { event := 3, tag := 1, eventBits := 64 },
      .add { event := 5, tag := 2, channel := 1, eventBits := 64 }] := by decide
  have formed : t.WellFormed := fits.invariant WellFormed call_formed wellFormed_empty
  exact ⟨by decide, by decide, (compile_preserves t formed (by decide)).2.2.2 5⟩

end Table

end WrCores.EcaLib
