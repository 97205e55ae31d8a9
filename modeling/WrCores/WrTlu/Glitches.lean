import WrCores.WrTlu.FsmRuns

/-!
Old glitches in tlu_fsm.vhd, for two runs with the same samples from some cycle on. Beside a run that is at rest the
other reports alike on all common parts just if it has forgotten what came before: a transition that was given up has
not, since its counters go into the time of the next edge.
-/

namespace WrCores.WrTlu

open Clocked Gencores

variable {gOffset : Nat} {stable : BitVec 32} {v : Bool} {s t : State} {c : BitVec 32}

/-! ### Telling two states apart -/

/-- A cycle in which an edge to the level `v` is reported. -/
def word (v : Bool) (x : BitVec 8) : In := ⟨x, 0, true, v⟩

/-- A word that ends with the new level, and full words until it is unbroken for long enough. -/
def edgeWords (stable : BitVec 32) (v : Bool) : List In :=
  word v (edgeWord v 1) :: (List.replicate (words stable 7) (word v (fill v)) ++ [word v (fill v)])

theorem full_words (v : Bool) (n : Nat) : ∀ i ∈ List.replicate n (word v (fill v)), i.triggerI = fill v := by
  intro i inside
  rw [List.eq_of_mem_replicate inside]
  rfl

/-- Behind the first word of an edge, seven samples are unbroken. -/
theorem edge_reports (climbing : Climbing v c 7 (s.step gOffset stable (word v (edgeWord v 1))))
    (quiet : (s.step gOffset stable (word v (edgeWord v 1))).sWe = false) :
    (Clocked.run (State.step gOffset stable) s (edgeWords stable v)).sWe = true ∧
      (Clocked.run (State.step gOffset stable) s (edgeWords stable v)).rTimeshift =
        BitVec.ofNat 32 (7 + 8 * words stable 7) + c >>> 1 + BitVec.ofNat 32 gOffset := by
  have bound := stable.isLt
  obtain ⟨late, early⟩ := words_spec stable 7
  obtain ⟨climbing, -⟩ := climbing.run gOffset stable quiet (List.replicate (words stable 7) (word v (fill v)))
    (full_words v _)
    (by simpa using early)
  rw [List.length_replicate] at climbing
  rw [edgeWords, run_cons, run_append]
  refine ⟨?_, climbing.shift gOffset stable⟩
  refine (climbing.reports gOffset stable rfl late (by omega)).2.trans ?_
  simp [word]

/-- From rest. -/
theorem rest_reports (gOffset : Nat) (stable : BitVec 32) (here : s.rState = rest (!v)) :
    (Clocked.run (State.step gOffset stable) s (edgeWords stable v)).sWe = true ∧
      (Clocked.run (State.step gOffset stable) s (edgeWords stable v)).rTimeshift =
        BitVec.ofNat 32 (7 + 8 * words stable 7) + BitVec.ofNat 32 gOffset := by
  obtain ⟨climbing, quiet⟩ := rest_edge gOffset stable here (show 1 < 8 by decide)
    (show (word v (edgeWord v 1)).triggerI = edgeWord v 1 from rfl)
  obtain ⟨reports, shift⟩ := edge_reports climbing quiet
  refine ⟨reports, ?_⟩
  rw [shift, BitVec.ofNat_eq_ofNat, BitVec.zero_ushiftRight, BitVec.add_zero]

theorem broken_msb (v : Bool) : fCountUnbroken (edgeWord v 1) v .msb = 0 ∧
    fCountUnbroken (edgeWord v 1) (!v) .lsb = 0 ∧
    edgeWord v 1 ≠ fill v ∧ edgeWord v 1 ≠ fill (!v) := by
  cases v <;> decide

/-- From a transition with nothing unbroken, what it has counted goes into the time. -/
theorem trans_reports (gOffset : Nat) (stable : BitVec 32) (here : s.rState = trans v) (unbr : s.rCntUnbr = 0)
    (positive : 0 < stable.toNat) :
    (Clocked.run (State.step gOffset stable) s (edgeWords stable v)).sWe = true ∧
      (Clocked.run (State.step gOffset stable) s (edgeWords stable v)).rTimeshift =
        BitVec.ofNat 32 (7 + 8 * words stable 7) + s.rCnt >>> 1 + BitVec.ofNat 32 gOffset := by
  obtain ⟨broken, -, -, other⟩ := broken_msb v
  obtain ⟨count, unbroken, -⟩ := edgeWord_counts v (show 1 < 8 by decide)
  have goes : ¬ Ends stable v s (word v (edgeWord v 1)) := by
    rw [Ends, unbr, word, broken, BitVec.le_def]
    simpa using positive.ne'
  have next := deglitch_trans here goes
  apply edge_reports
  · constructor
    · rw [State.step, next]
      exact here
    · rw [State.step, next]
      simp [counted, word, (broken_msb v).2.2.1, unbroken]
    · rw [State.step, next]
      simp [counted, word, count]
  · rw [State.step, next]

/-- The other transition does not end in full words. -/
theorem stuck_run (here : s.rState = trans (!v)) (unbr : s.rCntUnbr = 0) (quiet : s.sWe = false)
    (positive : 0 < stable.toNat) (n : Nat) :
    (Clocked.run (State.step gOffset stable) s (List.replicate n (word v (fill v)))).sWe = false := by
  induction n generalizing s with
  | zero => exact quiet
  | succ n ih =>
      have goes : ¬ Ends stable (!v) s (word v (fill v)) := by
        rw [Ends, unbr, word, unbroken_fill, if_neg (by simp), BitVec.le_def]
        simpa using positive.ne'
      have next := deglitch_trans here goes
      rw [List.replicate_succ, run_cons]
      apply ih
      · rw [State.step, next]
        exact here
      · rw [State.step, next]
        simp [counted, word, fill_ne, unbroken_fill]
      · rw [State.step, next]

/-- A level that is settled one word late has another time, or no report yet. -/
theorem late_run (here : s.rState = rest (!v)) :
    let s' := Clocked.run (State.step gOffset stable) s
      (List.replicate (words stable 7) (word v (fill v)) ++ [word v (fill v)])
    s'.sWe = false ∨ s'.rTimeshift = BitVec.ofNat 32 (8 * words stable 7) + BitVec.ofNat 32 gOffset := by
  obtain ⟨-, early⟩ := words_spec stable 7
  have full : (word v (fill v)).triggerI = edgeWord v 0 := by cases v <;> rfl
  obtain ⟨climbing, quiet⟩ := rest_edge gOffset stable here (by decide) full
  generalize words stable 7 = m at *
  cases m with
  | zero => exact .inl quiet
  | succ m =>
      right
      obtain ⟨climbing, -⟩ := climbing.run gOffset stable quiet (List.replicate m (word v (fill v))) (full_words v _)
        (.inr (by simp; omega))
      rw [List.length_replicate, show 8 - 0 + 8 * m = 8 * (m + 1) by omega] at climbing
      rw [List.replicate_succ, List.cons_append, run_cons, run_append]
      refine (climbing.shift gOffset stable).trans ?_
      rw [BitVec.ofNat_eq_ofNat, BitVec.zero_ushiftRight, BitVec.add_zero]

/-- What is not at the level before an edge misses its report, or takes another time. -/
theorem away_misses (gOffset : Nat) (stable : BitVec 32) (positive : 0 < stable.toNat)
    (away : s.rState = rest v ∨ s.rState = trans (!v)) :
    let s' := Clocked.run (State.step gOffset stable) s (edgeWords stable v)
    s'.sWe = false ∨ s'.rTimeshift = BitVec.ofNat 32 (8 * words stable 7) + BitVec.ofNat 32 gOffset := by
  obtain ⟨-, broken, first, second⟩ := broken_msb v
  have whole : List.replicate (words stable 7) (word v (fill v)) ++ [word v (fill v)] =
      List.replicate (words stable 7 + 1) (word v (fill v)) := List.replicate_succ'.symm
  rw [edgeWords, run_cons]
  rcases away with here | here
  · have next := @deglitch_rest stable _ _ here (word v (edgeWord v 1))
    rw [if_neg (show (word v (edgeWord v 1)).triggerI ≠ fill v from first)] at next
    left
    rw [whole]
    apply stuck_run _ _ _ positive
    · rw [State.step, next]
    · rw [State.step, next]
      simp [word, broken]
    · rw [State.step, next]
  · by_cases ends : Ends stable (!v) s (word v (edgeWord v 1))
    · apply late_run
      rw [State.step, deglitch_ends here ends]
    · have next := deglitch_trans here ends
      left
      rw [whole]
      apply stuck_run _ _ _ positive
      · rw [State.step, next]
        exact here
      · rw [State.step, next]
        simp [counted, word, second, broken]
      · rw [State.step, next]

/-- The word with a single sample of the new level, its last but one. -/
def spike (v : Bool) : BitVec 8 := if v then 0x02 else 0xfd

theorem spike_counts (v : Bool) : fCount (spike v) v = 1 ∧ (∀ dir, fCountUnbroken (spike v) v dir = 0) ∧
    spike v ≠ fill v ∧ spike v ≠ fill (!v) := by
  refine ⟨?_, fun dir => ?_, ?_, ?_⟩ <;> cases v <;> first | decide | (cases dir <;> decide)

theorem rest_spike (gOffset : Nat) (stable : BitVec 32) (here : s.rState = rest (!v)) :
    let s' := s.step gOffset stable (word v (spike v))
    s'.rState = trans v ∧ s'.rCnt = 1 ∧ s'.rCntUnbr = 0 := by
  obtain ⟨count, broken, -, other⟩ := spike_counts v
  have next := @deglitch_rest stable _ _ here (word v (spike v))
  rw [if_neg (show (word v (spike v)).triggerI ≠ fill (!v) from other)] at next
  rw [State.step, next]
  refine ⟨by simp, ?_, ?_⟩ <;> simp [word, count, broken]

theorem trans_spike (gOffset : Nat) (stable : BitVec 32) (here : s.rState = trans v) (unbr : s.rCntUnbr = 0)
    (positive : 0 < stable.toNat) :
    let s' := s.step gOffset stable (word v (spike v))
    s'.rState = trans v ∧ s'.rCnt = s.rCnt + 1 ∧ s'.rCntUnbr = 0 := by
  obtain ⟨count, broken, other, -⟩ := spike_counts v
  have goes : ¬ Ends stable v s (word v (spike v)) := by
    rw [Ends, unbr, word, broken, BitVec.le_def]
    simpa using positive.ne'
  rw [State.step, deglitch_trans here goes]
  refine ⟨here, ?_, ?_⟩ <;> simp [counted, word, count, broken, other]

/-- No leftover can be halved to nothing with and without one more sample. -/
theorem halves {x : BitVec 32} (even : x >>> 1 = 0) (odd : (x + 1) >>> 1 = 0) : x = 0 := by
  have first := congrArg BitVec.toNat even
  have second := congrArg BitVec.toNat odd
  simp only [BitVec.toNat_ushiftRight, Nat.shiftRight_eq_div_pow, BitVec.toNat_add, BitVec.ofNat_eq_ofNat,
    BitVec.toNat_ofNat] at first second
  apply BitVec.eq_of_toNat_eq
  simp only [BitVec.ofNat_eq_ofNat, BitVec.toNat_ofNat]
  omega

theorem forgets_of_alike (fine : s.rState ≠ .error) (unbr : s.rState = trans v → s.rCntUnbr = 0)
    (atRest : AtRest (!v) t) (positive : 0 < stable.toNat)
    (alike : ∀ common, Shows (Clocked.run (State.step gOffset stable) s common)
      (Clocked.run (State.step gOffset stable) t common)) : Forgets stable (!v) s := by
  have sWe := (reports_alike alike []).1.trans atRest.sWe
  have valid := (alike []).1.trans atRest.rWed1
  have next := (alike [word v (fill v)]).1.trans atRest.rWed0
  refine ⟨sWe, next, valid, ?_⟩
  obtain ⟨reports, shift⟩ := rest_reports gOffset stable atRest.rState
  obtain ⟨same, time⟩ := reports_alike alike (edgeWords stable v)
  have time := (time reports).trans shift
  have misses (away : s.rState = rest v ∨ s.rState = trans (!v)) : False := by
    rcases away_misses gOffset stable positive away with none | late
    · rw [same, reports] at none
      cases none
    · have equal := add_right_cancel (late.symm.trans time)
      have values := congrArg BitVec.toNat equal
      rw [BitVec.toNat_ofNat, BitVec.toNat_ofNat] at values
      omega
  rcases state_cases s.rState v with here | here | here | here | here
  · exact (misses (.inl here)).elim
  · exact (misses (.inr here)).elim
  · exact .inl here
  · right
    have unbr := unbr here
    have large : 8 < stable.toNat := by
      by_contra small
      -- the word that starts the transition of the one ends that of the other
      have first := (reports_alike alike [word v (fill v)]).1
      have ends : Ends stable v s (word v (fill v)) := by
        rw [Ends, unbr, word, unbroken_fill, if_pos rfl, BitVec.le_def]
        simpa using small
      have early : (Clocked.run (State.step gOffset stable) s [word v (fill v)]).sWe = true := by
        rw [run_cons, run_nil, State.step, deglitch_ends here ends]
        simp [word]
      have full : (word v (fill v)).triggerI = edgeWord v 0 := by cases v <;> rfl
      have none := (rest_edge gOffset stable atRest.rState (by decide) full).2
      rw [early] at first
      exact absurd (first.trans none) (by decide)
    have even : s.rCnt >>> 1 = 0 := by
      have other := (trans_reports gOffset stable here unbr positive).2
      have equal := add_right_cancel (other.symm.trans time)
      simpa using equal
    have odd : (s.rCnt + 1) >>> 1 = 0 := by
      obtain ⟨left, leftCnt, leftUnbr⟩ := trans_spike gOffset stable here unbr positive
      obtain ⟨right, rightCnt, rightUnbr⟩ := rest_spike gOffset stable atRest.rState
      obtain ⟨reports, shift⟩ := trans_reports gOffset stable right rightUnbr positive
      obtain ⟨-, other⟩ := trans_reports gOffset stable left leftUnbr positive
      have time := (reports_alike alike (word v (spike v) :: edgeWords stable v)).2 reports
      have equal := add_left_cancel (add_right_cancel (other.symm.trans (time.trans shift)))
      rw [leftCnt, rightCnt] at equal
      exact equal
    exact ⟨by simpa using here, halves even odd, large⟩
  · exact absurd here fine

theorem alike_of_forgets (unbr : s.rState = trans (!v) → s.rCntUnbr = 0) (atRest : AtRest v t)
    (forgets : Forgets stable v s) (common : List In) :
    Shows (Clocked.run (State.step gOffset stable) s common) (Clocked.run (State.step gOffset stable) t common) := by
  obtain ⟨sWe, rWed0, rWed1, state⟩ := forgets
  have pipes : Pipes s t := by
    refine ⟨sWe.trans atRest.sWe.symm, rWed0.trans atRest.rWed0.symm, rWed1.trans atRest.rWed1.symm, ?_, ?_, ?_⟩
    · simp [sWe]
    · simp [rWed0]
    · simp [rWed1]
  refine twins_run pipes (v := v) ?_ common
  rcases state with settled | ⟨here, none, large⟩
  · exact .settled settled atRest.rState
  · exact .nothing here none (unbr here) large atRest.rState

/-! ### Samples of one level -/

/-- A transition away from the level `v` that is not long enough. -/
def Pending (stable : BitVec 32) (v : Bool) (s : State) : Prop :=
  s.rState = trans (!v) ∧ s.rCntUnbr.toNat < stable.toNat

/-- What a transition has in `r_cntUnbr`: more than a word only if it is not long enough. -/
def Bounded (stable : BitVec 32) (s : State) : Prop :=
  ∀ v, s.rState = trans v → s.rCntUnbr.toNat < stable.toNat ∨ s.rCntUnbr.toNat ≤ 8

theorem bounded_step (i : In) : Bounded stable (s.step gOffset stable i) := by
  intro w here
  change (s.deglitch stable i).rState = trans w at here
  change (s.deglitch stable i).rCntUnbr.toNat < stable.toNat ∨ (s.deglitch stable i).rCntUnbr.toNat ≤ 8
  have short (v : Bool) (dir : Dir) : (BitVec.ofNat 32 (fCountUnbroken i.triggerI v dir)).toNat ≤ 8 := by
    rw [BitVec.toNat_ofNat]
    exact (Nat.mod_le _ _).trans (count_le _ _ _)
  have settled (v : Bool) (state : s.rState = rest v) :
      (s.deglitch stable i).rCntUnbr.toNat < stable.toNat ∨ (s.deglitch stable i).rCntUnbr.toNat ≤ 8 := by
    rw [deglitch_rest state] at here ⊢
    by_cases same : i.triggerI = fill v
    · rw [if_pos same] at here
      exact absurd (state.symm.trans here) (rest_ne_trans _ _)
    · rw [if_neg same]
      exact .inr (short _ _)
  have under (v : Bool) (state : s.rState = trans v) :
      (s.deglitch stable i).rCntUnbr.toNat < stable.toNat ∨ (s.deglitch stable i).rCntUnbr.toNat ≤ 8 := by
    by_cases ends : Ends stable v s i
    · rw [deglitch_ends state ends] at here
      exact absurd here (rest_ne_trans _ _)
    · rw [deglitch_trans state ends, counted]
      by_cases full : i.triggerI = fill v
      · left
        rw [Ends, full, unbroken_fill, if_pos rfl] at ends
        simpa [full, BitVec.le_def] using ends
      · right
        simpa [full] using short v .lsb
  rcases state_cases s.rState w with state | state | state | state | state
  · exact settled _ state
  · exact under _ state
  · exact settled _ state
  · exact under _ state
  · rw [State.deglitch, state] at here
    exact absurd (here : TState.low = trans w) (rest_ne_trans false _)

theorem bounded_run (inputs : List In) (bounded : Bounded stable s) :
    Bounded stable (Clocked.run (State.step gOffset stable) s inputs) := by
  induction inputs generalizing s with
  | nil => exact bounded
  | cons i rest ih => exact ih (bounded_step i)

variable {settling : List In}

theorem rest_run (gOffset : Nat) (stable : BitVec 32) (here : s.rState = rest v)
    (flat : ∀ i ∈ settling, i.triggerI = fill v) :
    (Clocked.run (State.step gOffset stable) s settling).rState = rest v := by
  induction settling generalizing s with
  | nil => exact here
  | cons i more ih =>
      exact ih (rest_flat gOffset stable here (flat i List.mem_cons_self)).1 fun j inside => flat j
        (List.mem_cons_of_mem i inside)

/-- Three words behind the last change nothing is under way. -/
theorem drained_run (here : s.rState = rest v) (flat : ∀ i ∈ settling, i.triggerI = fill v)
    (three : 3 ≤ settling.length) : AtRest v (Clocked.run (State.step gOffset stable) s settling) := by
  have split : settling = settling.take (settling.length - 3) ++ settling.drop (settling.length - 3) :=
    (List.take_append_drop ..).symm
  have last : (settling.drop (settling.length - 3)).length = 3 := by
    rw [List.length_drop]
    omega
  obtain ⟨i, j, k, words⟩ := List.length_eq_three.1 last
  rw [words] at split
  have first := rest_run gOffset stable here fun i (inside : i ∈ settling.take (settling.length - 3)) =>
    flat i (List.mem_of_mem_take inside)
  have inside (x : In) (member : x ∈ [i, j, k]) : x.triggerI = fill v :=
    flat x (List.mem_of_mem_drop (words ▸ member))
  rw [split, run_append]
  generalize Clocked.run (State.step gOffset stable) s (settling.take (settling.length - 3)) = s' at *
  obtain ⟨one, quiet⟩ := rest_flat gOffset stable first (inside i (by simp))
  obtain ⟨two, quiet'⟩ := rest_flat gOffset stable one (inside j (by simp))
  obtain ⟨three, quiet''⟩ := rest_flat gOffset stable two (inside k (by simp))
  exact ⟨three, quiet'', quiet', quiet⟩

theorem climb_settles {u : Nat} (climbing : Climbing v c u s) (small : u < stable.toNat ∨ u ≤ 8)
    (bound : stable.toNat + 8 ≤ 2 ^ 32) (flat : ∀ i ∈ settling, i.triggerI = fill v)
    (enough : words stable u < settling.length) :
    (Clocked.run (State.step gOffset stable) s settling).rState = rest v := by
  induction settling generalizing s u with
  | nil => exact absurd enough (Nat.not_lt_zero _)
  | cons i more ih =>
      have here := flat i List.mem_cons_self
      have later : ∀ j ∈ more, j.triggerI = fill v := fun j inside => flat j (List.mem_cons_of_mem i inside)
      rw [run_cons]
      rcases Nat.lt_or_ge (u + 8) stable.toNat with early | late
      · refine ih (climbing.goes gOffset stable here early).1 (.inl early) later ?_
        rw [words, List.length_cons] at enough
        rw [words]
        omega
      · exact rest_run gOffset stable (climbing.reports gOffset stable here late (by omega)).1 later

/-- One level for long enough settles, unless a transition away from it is pending. -/
theorem settles (positive : 0 < stable.toNat) (fine : s.rState ≠ .error) (bounded : Bounded stable s)
    (free : ¬ Pending stable v s) (bound : stable.toNat + 8 ≤ 2 ^ 32) (flat : ∀ i ∈ settling, i.triggerI = fill v)
    (enough : stable.toNat + 16 ≤ 8 * settling.length) :
    (Clocked.run (State.step gOffset stable) s settling).rState = rest v := by
  have full {i : In} (here : i.triggerI = fill v) : i.triggerI = edgeWord v 0 := by
    rw [here]
    cases v <;> rfl
  have from_other {s : State} {more : List In} (state : s.rState = rest (!v)) (flat : ∀ i ∈ more, i.triggerI = fill v)
      (enough : words stable 8 + 1 < more.length) :
      (Clocked.run (State.step gOffset stable) s more).rState = rest v := by
    cases more with
    | nil => exact absurd enough (Nat.not_lt_zero _)
    | cons i more =>
        have climbing := (rest_edge gOffset stable state (by decide) (full (flat i List.mem_cons_self))).1
        rw [run_cons]
        exact climb_settles climbing (.inr le_rfl) bound (fun j inside => flat j (List.mem_cons_of_mem i inside))
          (by simpa using enough)
  rcases state_cases s.rState v with state | state | state | state | state
  · exact rest_run gOffset stable state flat
  · cases settling with
    | nil =>
        rw [List.length_nil] at enough
        omega
    | cons i more =>
        have ends : Ends stable (!v) s i := by
          rw [Ends, flat i List.mem_cons_self, unbroken_fill, if_neg (by simp), BitVec.le_def]
          by_contra less
          exact free ⟨state, by simpa using less⟩
        rw [run_cons]
        refine from_other ?_ (fun j inside => flat j (List.mem_cons_of_mem i inside)) ?_
        · rw [State.step, deglitch_ends state ends]
        · rw [List.length_cons] at enough
          rw [words]
          omega
  · refine from_other state flat ?_
    rw [words]
    omega
  · have climbing : Climbing v (s.rCnt - s.rCntUnbr) s.rCntUnbr.toNat s := by
      refine ⟨state, ?_, ?_⟩
      · rw [BitVec.ofNat_toNat, BitVec.setWidth_eq]
      · rw [BitVec.ofNat_toNat, BitVec.setWidth_eq, BitVec.sub_add_cancel]
    refine climb_settles climbing (bounded v state) bound flat ?_
    rw [words]
    omega
  · exact absurd state fine

theorem pending_run (pending : Pending stable v s) (flat : ∀ i ∈ settling, i.triggerI = fill v) :
    Pending stable v (Clocked.run (State.step gOffset stable) s settling) := by
  induction settling generalizing s with
  | nil => exact pending
  | cons i more ih =>
      obtain ⟨state, short⟩ := pending
      have here := flat i List.mem_cons_self
      have goes : ¬ Ends stable (!v) s i := by
        rw [Ends, here, unbroken_fill, if_neg (by simp), BitVec.le_def]
        simpa using short
      refine ih ⟨?_, ?_⟩ fun j inside => flat j (List.mem_cons_of_mem i inside)
      · rw [State.step, deglitch_trans state goes]
        exact state
      · rw [State.step, deglitch_trans state goes]
        simp only [counted, here, fill_ne, if_false, unbroken_fill]
        simpa using Nat.zero_lt_of_lt short

/-- Five words beyond `stable_i` a run is at rest, unless it had a transition pending when they began. -/
theorem at_rest_iff (positive : 0 < stable.toNat) (reset : AfterReset s) (before : List In)
    (bound : stable.toNat + 8 ≤ 2 ^ 32)
    (flat : ∀ i ∈ settling, i.triggerI = fill v) (enough : stable.toNat + 40 ≤ 8 * settling.length) :
    AtRest v (Clocked.run (State.step gOffset stable) s (before ++ settling)) ↔
      ¬ Pending stable v (Clocked.run (State.step gOffset stable) s before) := by
  have fine : s.rState ≠ .error := by simp [reset.rState]
  have bounded : Bounded stable s := fun w here => absurd (reset.rState.symm.trans here) (rest_ne_trans false w)
  rw [run_append]
  constructor
  · intro atRest pending
    exact rest_ne_trans _ _ (atRest.rState.symm.trans (pending_run pending flat).1)
  · intro free
    rw [← List.take_append_drop (settling.length - 3) settling, run_append]
    refine drained_run ?_ (fun i inside => flat i (List.mem_of_mem_drop inside)) (by simp; omega)
    refine settles positive (error_run before fine) (bounded_run before bounded) free bound
      (fun i inside => flat i (List.mem_of_mem_take inside)) ?_
    rw [List.length_take]
    omega

/-! ### Old glitches -/

theorem glitches_forgotten_iff (gOffset : Nat) (stable : BitVec 32) (positive : 0 < stable.toNat) (v : Bool)
    (s t : State) (reset : AfterReset s) (before other settling : List In)
    (flat : ∀ i ∈ settling, i.triggerI = fill v) (long : stable.toNat ≤ 8 * settling.length)
    (atRest : AtRest v (Clocked.run (State.step gOffset stable) t (other ++ settling))) :
    ((∀ common, Shows (Clocked.run (State.step gOffset stable) s (before ++ settling ++ common))
        (Clocked.run (State.step gOffset stable) t (other ++ settling ++ common))) ↔
      Forgets stable v (Clocked.run (State.step gOffset stable) s (before ++ settling))) ∧
    ∀ inputs w p, CleanEdge (!v) w p inputs → stable.toNat + gOffset + 8 ≤ 2 ^ 32 →
      (∀ k, (Clocked.run (State.step gOffset stable) t (other ++ settling ++ upTo inputs k)).validO = true →
        (Clocked.run (State.step gOffset stable) t (other ++ settling ++ upTo inputs k)).capturedTimeO =
          ((inputs w).tmTaiCycI ++ 0#3) + BitVec.ofNat 67 (p + 8) - BitVec.ofNat 67 gOffset) ∧
      ((∀ k, (inputs k).activeI = true ∧ (inputs k).edgeI = !v) →
        ∃ k, (Clocked.run (State.step gOffset stable) t (other ++ settling ++ upTo inputs k)).validO = true) := by
  have fine : (Clocked.run (State.step gOffset stable) s (before ++ settling)).rState ≠ .error :=
    error_run _ (by simp [reset.rState])
  have unbr (here : (Clocked.run (State.step gOffset stable) s (before ++ settling)).rState = trans (!v)) :
      (Clocked.run (State.step gOffset stable) s (before ++ settling)).rCntUnbr = 0 := by
    obtain ⟨first, last, rfl⟩ : ∃ first last, settling = first ++ [last] := by
      refine ⟨settling.dropLast, settling.getLast fun none => ?_, (List.dropLast_append_getLast _).symm⟩
      simp only [none, List.length_nil] at long
      omega
    rw [← List.append_assoc, run_append] at here ⊢
    exact unbroken_flat (flat last (by simp)) here
  simp only [run_append _ _ (_ ++ settling)]
  generalize Clocked.run (State.step gOffset stable) s (before ++ settling) = s' at *
  generalize Clocked.run (State.step gOffset stable) t (other ++ settling) = t' at *
  obtain ⟨w, rfl⟩ : ∃ w, v = !w := ⟨!v, by simp⟩
  rw [Bool.not_not] at *
  refine ⟨⟨fun alike => ?_, fun forgets common => ?_⟩, fun inputs k p clean bound =>
    ⟨fun k valid => ?_, fun active => ?_⟩⟩
  · exact forgets_of_alike fine unbr atRest positive alike
  · exact alike_of_forgets (by simpa using unbr) atRest forgets common
  · exact clean.time atRest positive bound valid
  · exact clean.seen atRest bound active

/-- A state that `rst_ref_n_i` leaves. -/
def fresh : State :=
  ⟨.low, 0, 0, 0, false, false, false, ⟨fun _ => 0, 0, 0, false, fun _ => 0, 0, false⟩⟩

def lowWords (n : Nat) : List In := List.replicate n (word true 0x00)

/-- A rising edge and the cycles of its report. -/
def risingEdge : List In := List.replicate 4 (word true 0xff)

theorem low_rests : AtRest false (Clocked.run (State.step 0 16) fresh ([word true 0x00] ++ lowWords 7)) := by
  constructor <;> decide +kernel

theorem glitches_forgotten_low :
    Shows (Clocked.run (State.step 0 16) fresh ([word true 0x00, word true 0x00] ++ lowWords 7 ++ risingEdge))
      (Clocked.run (State.step 0 16) fresh ([word true 0x00] ++ lowWords 7 ++ risingEdge)) := by
  refine (glitches_forgotten_iff 0 16 (by decide) false fresh fresh ⟨rfl, rfl, rfl, rfl⟩ _ _ (lowWords 7) (by decide)
    (by decide) low_rests).1.2 ?_ risingEdge
  refine ⟨?_, ?_, ?_, .inl ?_⟩ <;> decide +kernel

/-- Four high samples long ago take the next rising edge back by two. -/
theorem glitch_shifts : AtRest false (Clocked.run (State.step 0 16) fresh ([word true 0x00] ++ lowWords 7)) ∧
    ¬ Shows (Clocked.run (State.step 0 16) fresh ([word true 0x3c] ++ lowWords 7 ++ risingEdge))
      (Clocked.run (State.step 0 16) fresh ([word true 0x00] ++ lowWords 7 ++ risingEdge)) := by
  refine ⟨low_rests, fun alike => ?_⟩
  have time := alike.2 (by decide +kernel)
  revert time
  decide +kernel

end WrCores.WrTlu
