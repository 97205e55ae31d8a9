import WrCores.EcaLib.Image

/-!
`Table::Impl::decompile` on what the hardware may hold, lists that loop or leave the walker table included. The loop
over a list has no bound in the source; here it may take any number of turns.
-/

namespace WrCores.EcaLib

/-- What `loadSearch` and `loadWalk` make of a pointer. -/
def Index.Valid (i : Index) : Prop := i = -1 ∨ 0 ≤ i.toInt

/-- The list from an index ends after these visits, and leaves the table or not. -/
inductive Path (w : List WalkEntry) : Index → List Index → Bool → Prop where
  | ended : Path w (-1) [] false
  | outside {i : Index} (valid : i ≠ -1) (past : (w.length : Int) ≤ i.toInt) : Path w i [] true
  | visit {i : Index} {we : WalkEntry} {rest : List Index} {leaves : Bool} (valid : i ≠ -1) (start : 0 ≤ i.toInt)
      (found : w[i.toNat]? = some we) (behind : Path w we.next rest leaves) : Path w i (i :: rest) leaves

def Ends (w : List WalkEntry) (i : Index) : Prop := ∃ l leaves, Path w i l leaves

def Leaves (w : List WalkEntry) (i : Index) : Prop := ∃ l, Path w i l true

namespace Table

/-- `decompile` where each list may take `fuel` turns. -/
def decompileLoopWith (fuel : Nat) (w : List WalkEntry) :
    List SearchEntry → Event → Table → Nat → Option (Table × Nat)
  | [], _, t, count => some (t, count)
  | se :: rest, last, t, count =>
      match walkList w se.event last fuel se.first t count with
      | none => none
      | some r => decompileLoopWith fuel w rest (se.event - 1) r.1 r.2

def decompileWith (fuel : Nat) (t : Table) (s : List SearchEntry) (w : List WalkEntry) : Option (Table × Nat) :=
  decompileLoopWith fuel w s.reverse (-1) t 0

/-- The indices at which the first turns of a list read `w`. -/
def reads (w : List WalkEntry) : Nat → Index → List Int
  | 0, _ => []
  | fuel + 1, wi =>
      if wi = -1 then []
      else if (w.length : Int) ≤ wi.toInt then []
      else
        wi.toInt ::
          match w[wi.toNat]? with
          | none => []
          | some we => reads w fuel we.next

end Table

variable {w : List WalkEntry} {i : Index} {l : List Index} {leaves : Bool}

theorem toInt_of_nonneg {i : Index} (start : 0 ≤ i.toInt) : i.toInt = i.toNat := by
  have bound := i.isLt
  rw [BitVec.toInt_eq_toNat_cond] at start ⊢
  split
  · rfl
  · rename_i large
    rw [if_neg large] at start
    omega

/-- A list has one course. -/
theorem Path.unique (path : Path w i l leaves) {l' : List Index} {leaves' : Bool} (path' : Path w i l' leaves') :
    l = l' ∧ leaves = leaves' := by
  induction path generalizing l' leaves' with
  | ended =>
      cases path' with
      | ended => exact ⟨rfl, rfl⟩
      | outside valid _ => exact absurd rfl valid
      | visit valid _ _ _ => exact absurd rfl valid
  | outside valid past =>
      cases path' with
      | ended => exact absurd rfl valid
      | outside _ _ => exact ⟨rfl, rfl⟩
      | visit _ start found _ =>
          have inside := (List.getElem?_eq_some_iff.mp found).1
          rw [toInt_of_nonneg start] at past
          omega
  | visit valid start found behind ih =>
      cases path' with
      | ended => exact absurd rfl valid
      | outside _ past =>
          have inside := (List.getElem?_eq_some_iff.mp found).1
          rw [toInt_of_nonneg start] at past
          omega
      | visit _ _ found' behind' =>
          cases found.symm.trans found'
          obtain ⟨same, same'⟩ := ih behind'
          exact ⟨by rw [same], same'⟩

theorem Path.mem (path : Path w i l leaves) (j : Index) (inside : j ∈ l) :
    j.toNat < w.length ∧ ∃ l', Path w j l' leaves ∧ l'.length ≤ l.length := by
  induction path with
  | ended => simp at inside
  | outside _ _ => simp at inside
  | @visit i we rest leaves valid start found behind ih =>
      rcases List.mem_cons.mp inside with rfl | later
      · exact ⟨(List.getElem?_eq_some_iff.mp found).1, _, .visit valid start found behind, le_rfl⟩
      · obtain ⟨small, l', path', short⟩ := ih later
        exact ⟨small, l', path', short.trans (by simp)⟩

/-- A list that ends visits no entry twice. -/
theorem Path.nodup (path : Path w i l leaves) : l.Nodup := by
  induction path with
  | ended => exact List.nodup_nil
  | outside _ _ => exact List.nodup_nil
  | @visit i we rest leaves valid start found behind ih =>
      refine List.nodup_cons.mpr ⟨?_, ih⟩
      intro again
      obtain ⟨-, l', path', short⟩ := behind.mem _ again
      have same := (Path.visit valid start found behind).unique path'
      rw [← same.1, List.length_cons] at short
      omega

theorem Path.length_le (path : Path w i l leaves) : l.length ≤ w.length := by
  have distinct : (l.map BitVec.toNat).Nodup :=
    path.nodup.map fun _ _ same => BitVec.eq_of_toNat_eq same
  have inside : l.map BitVec.toNat ⊆ List.range w.length := by
    intro x found
    obtain ⟨j, visited, rfl⟩ := List.mem_map.mp found
    exact List.mem_range.mpr (path.mem j visited).1
  simpa using (List.subperm_of_subset distinct inside).length_le

namespace Table

variable (event last : Event)

/-- A list that ends is left, and counted where it leaves the table. -/
theorem walkList_path (path : Path w i l leaves) (fuel : Nat) (enough : l.length < fuel) (t : Table) (count : Nat) :
    ∃ r, walkList w event last fuel i t count = some r ∧ count ≤ r.2 ∧ (leaves = true → count < r.2) := by
  induction path generalizing fuel t count with
  | ended =>
      obtain ⟨fuel, rfl⟩ := Nat.exists_eq_succ_of_ne_zero (by omega : fuel ≠ 0)
      exact ⟨(t, count), by rw [walkList, if_pos rfl], le_rfl, fun left => by cases left⟩
  | outside valid past =>
      obtain ⟨fuel, rfl⟩ := Nat.exists_eq_succ_of_ne_zero (by omega : fuel ≠ 0)
      exact ⟨(t, count + 1), by rw [walkList, if_neg valid, if_pos past], by simp, fun _ => by simp⟩
  | @visit i we rest leaves valid start found behind ih =>
      obtain ⟨fuel, rfl⟩ := Nat.exists_eq_succ_of_ne_zero (by omega : fuel ≠ 0)
      have inside := (List.getElem?_eq_some_iff.mp found).1
      have within : ¬(w.length : Int) ≤ i.toInt := by
        rw [toInt_of_nonneg start]
        omega
      rw [List.length_cons] at enough
      obtain ⟨r, walked, more, left⟩ := ih fuel (by omega) (t.addRange event last we.offset we.channel we.tag).1
        (count + (t.addRange event last we.offset we.channel we.tag).2)
      refine ⟨r, ?_, by omega, fun out => ?_⟩
      · rw [walkList, if_neg valid, if_neg within, if_neg (not_lt.mpr start), found]
        exact walked
      · have := left out
        omega

theorem path_of_walkList (fuel : Nat) (i : Index) (t : Table) (count : Nat) (r : Table × Nat)
    (walked : walkList w event last fuel i t count = some r) : Ends w i := by
  induction fuel generalizing i t count with
  | zero => simp [walkList] at walked
  | succ fuel ih =>
      rw [walkList] at walked
      split at walked
      · rename_i ended
        exact ⟨[], false, ended ▸ .ended⟩
      · rename_i valid
        split at walked
        · rename_i past
          exact ⟨[], true, .outside valid past⟩
        · split at walked
          · simp at walked
          · rename_i start
            split at walked
            · simp at walked
            · rename_i we found
              obtain ⟨l, leaves, behind⟩ := ih _ _ _ walked
              exact ⟨_, _, .visit valid (not_lt.mp start) found behind⟩

theorem decompileLoop_eq_with (s : List SearchEntry) (t : Table) (count : Nat) :
    decompileLoop w s last t count = decompileLoopWith (w.length + 1) w s last t count := by
  induction s generalizing last t count with
  | nil => rfl
  | cons se rest ih =>
      rw [decompileLoop, decompileLoopWith]
      cases walkList w se.event last (w.length + 1) se.first t count with
      | none => rfl
      | some r => exact ih _ _ _

/-- As many turns as the table has entries are enough for every list that ends. -/
theorem decompile_eq_with (t : Table) (s : List SearchEntry) :
    decompile t s w = decompileWith (w.length + 1) t s w := decompileLoop_eq_with _ _ _ _

theorem decompileLoopWith_ends (s : List SearchEntry) (fuel : Nat) (enough : w.length < fuel)
    (ends : ∀ se ∈ s, Ends w se.first) (t : Table) (count : Nat) :
    ∃ r, decompileLoopWith fuel w s last t count = some r ∧ count ≤ r.2 ∧
      ((∃ se ∈ s, Leaves w se.first) → count < r.2) := by
  induction s generalizing last t count with
  | nil => exact ⟨(t, count), rfl, le_rfl, fun ⟨_, inside, _⟩ => by simp at inside⟩
  | cons se rest ih =>
      obtain ⟨l, leaves, path⟩ := ends se (by simp)
      obtain ⟨r, walked, more, left⟩ :=
        walkList_path se.event last path fuel (lt_of_le_of_lt path.length_le enough) t count
      obtain ⟨r', looped, more', left'⟩ :=
        ih (se.event - 1) (fun other inside => ends other (by simp [inside])) r.1 r.2
      refine ⟨r', ?_, by omega, ?_⟩
      · rw [decompileLoopWith, walked]
        exact looped
      · rintro ⟨other, inside, l', out⟩
        rcases List.mem_cons.mp inside with rfl | later
        · have := left (path.unique out).2
          omega
        · have := left' ⟨other, later, l', out⟩
          omega

theorem ends_of_decompileLoopWith (s : List SearchEntry) (fuel : Nat) (t : Table) (count : Nat) (r : Table × Nat)
    (looped : decompileLoopWith fuel w s last t count = some r) : ∀ se ∈ s, Ends w se.first := by
  induction s generalizing last t count with
  | nil => simp
  | cons se rest ih =>
      rw [decompileLoopWith] at looped
      split at looped
      · simp at looped
      · rename_i walked
        intro other inside
        rcases List.mem_cons.mp inside with rfl | later
        · exact path_of_walkList _ _ _ _ _ _ _ walked
        · exact ih _ _ _ looped other later

theorem reads_inside (links : ∀ we ∈ w, Index.Valid we.next) (fuel : Nat) (i : Index) (valid : Index.Valid i) :
    ∀ x ∈ reads w fuel i, 0 ≤ x ∧ x < w.length := by
  induction fuel generalizing i with
  | zero => simp [reads]
  | succ fuel ih =>
      rw [reads]
      split
      · simp
      · rename_i some
        split
        · simp
        · rename_i inside
          intro x found
          rcases List.mem_cons.mp found with rfl | later
          · exact ⟨valid.resolve_left some, not_le.mp inside⟩
          · split at later
            · simp at later
            · rename_i we here
              exact ih we.next (links we (List.mem_of_getElem? here)) x later

/-- `decompile` comes to an end, and counts a list that leaves the table. -/
def Copes (t : Table) (s : List SearchEntry) (w : List WalkEntry) : Prop :=
  ∃ fuel r, decompileWith fuel t s w = some r ∧ ((∃ se ∈ s, Leaves w se.first) → r.2 ≠ 0)

/-- Nothing outside the table is read, but a list that loops is followed for ever. -/
theorem decompile_copes_iff (t : Table) (s : List SearchEntry) (w : List WalkEntry)
    (heads : ∀ se ∈ s, Index.Valid se.first) (links : ∀ we ∈ w, Index.Valid we.next) :
    (Copes t s w ↔ ∀ se ∈ s, Ends w se.first) ∧
      ∀ fuel, ∀ se ∈ s, ∀ x ∈ reads w fuel se.first, 0 ≤ x ∧ x < w.length := by
  refine ⟨⟨?_, ?_⟩, ?_⟩
  · rintro ⟨fuel, r, looped, -⟩ se inside
    exact ends_of_decompileLoopWith _ _ _ _ _ _ looped se (List.mem_reverse.mpr inside)
  · intro ends
    obtain ⟨r, looped, -, left⟩ := decompileLoopWith_ends (-1) s.reverse (w.length + 1) (Nat.lt_succ_self _)
      (fun se inside => ends se (List.mem_reverse.mp inside)) t 0
    refine ⟨w.length + 1, r, looped, ?_⟩
    rintro ⟨se, inside, out⟩
    exact (left ⟨se, List.mem_reverse.mpr inside, out⟩).ne'
  · intro fuel se inside
    exact reads_inside links fuel se.first (heads se inside)

/-- Two lists that meet, one of which leaves the table. -/
theorem decompile_copes_outside :
    Copes {} [⟨0, 0⟩, ⟨5, 1⟩] [⟨0, 1, 1, 0⟩, ⟨0, 1, 7, 0⟩] := by
  have out : Path [⟨0, 1, 1, 0⟩, ⟨0, 1, 7, 0⟩] 7 [] true := .outside (by decide) (by decide)
  have second : Path [⟨0, 1, 1, 0⟩, ⟨0, 1, 7, 0⟩] 1 [1] true := .visit (by decide) (by decide) rfl out
  have first : Path [⟨0, 1, 1, 0⟩, ⟨0, 1, 7, 0⟩] 0 [0, 1] true := .visit (by decide) (by decide) rfl second
  refine (decompile_copes_iff {} _ _ ?_ ?_).1.2 ?_
  · intro se inside
    simp only [List.mem_cons, List.not_mem_nil, or_false] at inside
    rcases inside with rfl | rfl <;> exact .inr (by decide)
  · intro we inside
    simp only [List.mem_cons, List.not_mem_nil, or_false] at inside
    rcases inside with rfl | rfl <;> exact .inr (by decide)
  · intro se inside
    simp only [List.mem_cons, List.not_mem_nil, or_false] at inside
    rcases inside with rfl | rfl
    · exact ⟨_, _, first⟩
    · exact ⟨_, _, second⟩

/-- An entry that is linked to itself. -/
theorem decompile_runs_on :
    Index.Valid 0 ∧ (∀ fuel, decompileWith fuel {} [⟨0, 0⟩] [⟨0, 1, 0, 0⟩] = none) ∧
    ¬Copes {} [⟨0, 0⟩] [⟨0, 1, 0, 0⟩] := by
  have turns : ∀ fuel t count, walkList [⟨0, 1, 0, 0⟩] 0 (-1) fuel 0 t count = none := by
    intro fuel
    induction fuel with
    | zero => intro t count; rfl
    | succ fuel ih =>
        intro t count
        rw [walkList, if_neg (by decide), if_neg (by decide), if_neg (by decide)]
        exact ih _ _
  have never : ∀ fuel, decompileWith fuel {} [⟨0, 0⟩] [⟨0, 1, 0, 0⟩] = none := by
    intro fuel
    rw [decompileWith, List.reverse_singleton, decompileLoopWith]
    simp only
    rw [turns]
  refine ⟨.inr (by decide), never, ?_⟩
  rintro ⟨fuel, r, looped, -⟩
  rw [never] at looped
  cases looped

end Table

end WrCores.EcaLib
