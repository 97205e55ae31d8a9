import Mathlib.Tactic.IntervalCases
import WrCores.Clocked.Stream
import WrCores.WrTlu.Fsm

/-!
Runs of tlu_fsm.vhd behind samples of one level. A transition that was given up keeps its counters, and no run of the
old level takes it back; a state tells nothing of such samples just if it is at rest. A glitch-free edge behind a state
at rest gets the time of its first sample, and a constant.
-/

namespace WrCores.WrTlu

open Clocked Gencores

variable {gOffset : Nat} {stable : BitVec 32} {v : Bool} {s t : State}

/-- The level `v` is settled, and no report is under way. -/
structure AtRest (v : Bool) (s : State) : Prop where
  rState : s.rState = rest v
  sWe : s.sWe = false
  rWed0 : s.rWed0 = false
  rWed1 : s.rWed1 = false

/-- Nothing is under way, and a transition from the level `v` has counted nothing. -/
structure Forgets (stable : BitVec 32) (v : Bool) (s : State) : Prop where
  sWe : s.sWe = false
  rWed0 : s.rWed0 = false
  rWed1 : s.rWed1 = false
  rState : s.rState = rest v ∨ s.rState = trans (!v) ∧ s.rCnt = 0 ∧ 8 < stable.toNat

/-! ### States -/

theorem state_cases (x : TState) (v : Bool) :
    x = rest v ∨ x = trans (!v) ∨ x = rest (!v) ∨ x = trans v ∨ x = .error := by
  cases x <;> cases v <;> decide

theorem rest_ne_trans (v w : Bool) : rest v ≠ trans w := by
  cases v <;> cases w <;> decide

theorem trans_ne (v : Bool) : trans v ≠ trans (!v) := by
  cases v <;> decide

/-- A word of the old level leaves a transition with nothing unbroken. -/
theorem unbroken_flat {i : In} (flat : i.triggerI = fill v)
    (here : (s.step gOffset stable i).rState = trans (!v)) : (s.step gOffset stable i).rCntUnbr = 0 := by
  change (s.deglitch stable i).rState = trans (!v) at here
  change (s.deglitch stable i).rCntUnbr = 0
  rcases state_cases s.rState v with state | state | state | state | state
  · rw [deglitch_rest state, if_pos flat] at here
    exact absurd (state.symm.trans here) (rest_ne_trans v _)
  · by_cases ends : Ends stable (!v) s i
    · rw [deglitch_ends state ends] at here
      exact absurd here (rest_ne_trans _ _)
    · rw [deglitch_trans state ends]
      simp [counted, flat, fill_ne, unbroken_fill]
  · rw [deglitch_rest state, if_neg (by rw [flat]; exact fill_ne v)] at here
    exact absurd here (by simpa using trans_ne v)
  · by_cases ends : Ends stable v s i
    · rw [deglitch_ends state ends] at here
      exact absurd here (rest_ne_trans _ _)
    · rw [deglitch_trans state ends] at here
      exact absurd (state.symm.trans here) (trans_ne v)
  · rw [State.deglitch, state] at here
    exact absurd (here : TState.low = trans !v) (rest_ne_trans false _)

theorem error_step (i : In) (fine : s.rState ≠ .error) : (s.step gOffset stable i).rState ≠ .error := by
  change (s.deglitch stable i).rState ≠ .error
  unfold State.deglitch
  dsimp only
  repeat' split
  all_goals simp_all

theorem error_run (inputs : List In) (fine : s.rState ≠ .error) :
    (run (State.step gOffset stable) s inputs).rState ≠ .error := by
  induction inputs generalizing s with
  | nil => exact fine
  | cons i rest ih => exact ih (error_step i fine)

/-! ### What a report shows -/

/-- The time is there two cycles behind the report. -/
theorem reported (gOffset : Nat) (stable : BitVec 32) (s : State) (i j : In) :
    ((s.step gOffset stable i).step gOffset stable j).validO = s.sWe ∧
      ((s.step gOffset stable i).step gOffset stable j).capturedTimeO =
        (i.tmTaiCycI ++ 0#3) - s.rTimeshift.setWidth 67 := by
  refine ⟨rfl, ?_⟩
  have sum : ((s.step gOffset stable i).step gOffset stable j).adder.x2 =
      State.sAddA i + s.sAddB + BitVec.setWidth _ (BitVec.ofBool true) :=
    BigAdder.main_x2 _ _ _ _ _ _ _
  have time : (State.sAddA i).toNat = i.tmTaiCycI.toNat * 8 := by
    rw [State.sAddA, Eca.append_toNat, Eca.append_toNat]
    simp [Nat.mul_comm]
  have shift : s.sAddB.toNat = 2 ^ 72 - 1 - s.rTimeshift.toNat := by
    have small := s.rTimeshift.isLt
    rw [State.sAddB, Eca.append_toNat, BitVec.toNat_not, BitVec.toNat_allOnes]
    omega
  have whole : (i.tmTaiCycI ++ 0#3).toNat = i.tmTaiCycI.toNat * 8 := by
    rw [Eca.append_toNat]
    simp [Nat.mul_comm]
  have bound := i.tmTaiCycI.isLt
  have small := s.rTimeshift.isLt
  apply BitVec.eq_of_toNat_eq
  rw [State.capturedTimeO, sum, BitVec.extractLsb'_toNat, Nat.shiftRight_zero, BitVec.toNat_sub,
    BitVec.toNat_setWidth,
    whole, BitVec.toNat_add, BitVec.toNat_add, time, shift]
  simp only [BitVec.toNat_setWidth, BitVec.toNat_ofBool, Bool.toNat_true]
  omega

/-- States that always report alike have the same reports under way. -/
theorem reports_alike (alike : ∀ common, Shows (run (State.step gOffset stable) s common)
    (run (State.step gOffset stable) t common)) (l : List In) :
    (run (State.step gOffset stable) s l).sWe = (run (State.step gOffset stable) t l).sWe ∧
      ((run (State.step gOffset stable) t l).sWe = true →
        (run (State.step gOffset stable) s l).rTimeshift = (run (State.step gOffset stable) t l).rTimeshift) := by
  have later := alike (l ++ [⟨0, 0, false, false⟩, ⟨0, 0, false, false⟩])
  rw [run_append, run_append] at later
  obtain ⟨valid, time⟩ := later
  have left := reported gOffset stable (run (State.step gOffset stable) s l)
    ⟨0, 0, false, false⟩ ⟨0, 0, false, false⟩
  have right := reported gOffset stable (run (State.step gOffset stable) t l)
    ⟨0, 0, false, false⟩ ⟨0, 0, false, false⟩
  have same := left.1.symm.trans (valid.trans right.1)
  refine ⟨same, fun reports => ?_⟩
  have equal := left.2.symm.trans ((time (left.1.trans (same.trans reports))).trans right.2)
  have wide := sub_right_injective equal
  apply BitVec.eq_of_toNat_eq
  have values := congrArg BitVec.toNat wide
  rwa [BitVec.toNat_setWidth_of_le (by decide), BitVec.toNat_setWidth_of_le (by decide)] at values

/-! ### An edge -/

/-- The word with an edge to the level `v` at sample `p`. -/
def edgeWord (v : Bool) (p : Nat) : BitVec 8 := if v then 0xff >>> p else ~~~(0xff >>> p)

theorem edgeWord_counts (v : Bool) {p : Nat} (inside : p < 8) : fCount (edgeWord v p) v = 8 - p ∧
    fCountUnbroken (edgeWord v p) v .lsb = 8 - p ∧ edgeWord v p ≠ fill (!v) := by
  interval_cases p <;> cases v <;> decide

/-- In a transition to the level `v` the last `u` samples are unbroken, and `c` were counted before. -/
structure Climbing (v : Bool) (c : BitVec 32) (u : Nat) (s : State) : Prop where
  rState : s.rState = trans v
  rCntUnbr : s.rCntUnbr = BitVec.ofNat 32 u
  rCnt : s.rCnt = c + BitVec.ofNat 32 u

variable {c : BitVec 32} {u : Nat} {i : In}

theorem Climbing.shift (gOffset : Nat) (stable : BitVec 32) (climbing : Climbing v c u s) :
    (s.step gOffset stable i).rTimeshift =
    BitVec.ofNat 32 u + c >>> 1 + BitVec.ofNat 32 gOffset := by
  rw [State.step, climbing.rCntUnbr, climbing.rCnt]
  dsimp only
  rw [BitVec.add_sub_cancel]

/-- A full word goes on. -/
theorem Climbing.goes (gOffset : Nat) (stable : BitVec 32) (climbing : Climbing v c u s)
    (full : i.triggerI = fill v) (early : u + 8 < stable.toNat) :
    Climbing v c (u + 8) (s.step gOffset stable i) ∧ (s.step gOffset stable i).sWe = false := by
  have bound := stable.isLt
  have goes : ¬ Ends stable v s i := by
    rw [Ends, climbing.rCntUnbr, full, unbroken_fill, if_pos rfl, BitVec.le_def, BitVec.toNat_add, BitVec.toNat_ofNat,
      BitVec.toNat_ofNat]
    omega
  have next := deglitch_trans climbing.rState goes
  refine ⟨⟨?_, ?_, ?_⟩, ?_⟩
  · rw [State.step, next]
    exact climbing.rState
  · rw [State.step, next]
    simp [counted, full, climbing.rCntUnbr, BitVec.ofNat_add]
  · rw [State.step, next]
    simp [counted, full, climbing.rCnt, count_fill, BitVec.ofNat_add, BitVec.add_assoc]
  · rw [State.step, next]

/-- The full word that makes it long enough. -/
theorem Climbing.reports (gOffset : Nat) (stable : BitVec 32) (climbing : Climbing v c u s)
    (full : i.triggerI = fill v) (late : stable.toNat ≤ u + 8)
    (bound : u + 8 < 2 ^ 32) : (s.step gOffset stable i).rState = rest v ∧
      (s.step gOffset stable i).sWe = ((i.edgeI == v) && i.activeI) := by
  have ends : Ends stable v s i := by
    rw [Ends, climbing.rCntUnbr, full, unbroken_fill, if_pos rfl, BitVec.le_def, BitVec.toNat_add, BitVec.toNat_ofNat,
      BitVec.toNat_ofNat]
    omega
  rw [State.step, deglitch_ends climbing.rState ends]
  exact ⟨rfl, rfl⟩

/-- A settled level keeps quiet, and a change starts a transition. -/
theorem rest_flat (gOffset : Nat) (stable : BitVec 32) (here : s.rState = rest v) (flat : i.triggerI = fill v) :
    (s.step gOffset stable i).rState = rest v ∧ (s.step gOffset stable i).sWe = false := by
  rw [State.step, deglitch_rest here, if_pos flat]
  exact ⟨here, rfl⟩

theorem rest_edge (gOffset : Nat) (stable : BitVec 32) (here : s.rState = rest (!v)) {p : Nat} (inside : p < 8)
    (edge : i.triggerI = edgeWord v p) :
    Climbing v 0 (8 - p) (s.step gOffset stable i) ∧ (s.step gOffset stable i).sWe = false := by
  obtain ⟨count, unbroken, other⟩ := edgeWord_counts v inside
  rw [State.step, deglitch_rest here, if_neg (by rw [edge]; exact other)]
  refine ⟨⟨?_, ?_, ?_⟩, rfl⟩ <;> simp [edge, count, unbroken]

/-- Full words in a row, none of which makes it long enough. -/
theorem Climbing.run (gOffset : Nat) (stable : BitVec 32) (climbing : Climbing v c u s) (quiet : s.sWe = false)
    (words : List In)
    (full : ∀ i ∈ words, i.triggerI = fill v) (early : words = [] ∨ u + 8 * words.length < stable.toNat) :
    Climbing v c (u + 8 * words.length) (Clocked.run (State.step gOffset stable) s words) ∧
      (Clocked.run (State.step gOffset stable) s words).sWe = false := by
  induction words generalizing s u with
  | nil => exact ⟨climbing, quiet⟩
  | cons i rest ih =>
      rcases early with none | early
      · cases none
      · rw [List.length_cons] at early
        obtain ⟨climbing, quiet⟩ := climbing.goes gOffset stable (full i List.mem_cons_self) (by omega)
        obtain ⟨climbing, quiet⟩ := ih climbing quiet (fun j inside => full j (List.mem_cons_of_mem i inside))
          (.inr (by omega))
        rw [List.length_cons, show u + 8 * (rest.length + 1) = u + 8 + 8 * rest.length by omega]
        exact ⟨climbing, quiet⟩

/-- How many full words a transition takes behind its first `u` samples, but for the one that reports. -/
def words (stable : BitVec 32) (u : Nat) : Nat := (stable.toNat - 1 - u) / 8

theorem words_spec (stable : BitVec 32) (u : Nat) : stable.toNat ≤ u + 8 * words stable u + 8 ∧
    (words stable u = 0 ∨ u + 8 * words stable u < stable.toNat) := by
  rw [words]
  omega

/-! ### The time of a glitch-free edge -/

/-- Words of one level, a word with an edge at sample `p`, and words of the other level, while the time counts. -/
structure CleanEdge (v : Bool) (w p : Nat) (inputs : Nat → In) : Prop where
  before : ∀ k < w, (inputs k).triggerI = fill (!v)
  edge : (inputs w).triggerI = edgeWord v p
  behind : ∀ k > w, (inputs k).triggerI = fill v
  inside : p < 8
  counts : ∀ k, (inputs (k + 1)).tmTaiCycI = (inputs k).tmTaiCycI + 1

section Edge

variable {inputs : Nat → In} {w p : Nat}

theorem run_succ (k : Nat) : Clocked.run (State.step gOffset stable) s (upTo inputs (k + 1)) =
    (Clocked.run (State.step gOffset stable) s (upTo inputs k)).step gOffset stable (inputs k) := by
  rw [upTo_snoc, run_append]
  rfl

theorem CleanEdge.waits (clean : CleanEdge v w p inputs) (atRest : AtRest (!v) s) {k : Nat} (less : k ≤ w) :
    (Clocked.run (State.step gOffset stable) s (upTo inputs k)).rState = rest (!v) ∧
      (Clocked.run (State.step gOffset stable) s (upTo inputs k)).sWe = false := by
  induction k with
  | zero => exact ⟨atRest.rState, atRest.sWe⟩
  | succ k ih =>
      rw [run_succ]
      exact rest_flat gOffset stable (ih (by omega)).1 (clean.before k (by omega))

theorem CleanEdge.climbs (gOffset : Nat) (stable : BitVec 32) (clean : CleanEdge v w p inputs)
    (atRest : AtRest (!v) s) {k : Nat}
    (less : k ≤ words stable (8 - p)) :
    Climbing v 0 (8 - p + 8 * k) (Clocked.run (State.step gOffset stable) s (upTo inputs (w + 1 + k))) ∧
      (Clocked.run (State.step gOffset stable) s (upTo inputs (w + 1 + k))).sWe = false := by
  induction k with
  | zero =>
      rw [Nat.add_zero, run_succ]
      exact rest_edge gOffset stable (clean.waits atRest le_rfl).1 clean.inside clean.edge
  | succ k ih =>
      have early := (words_spec stable (8 - p)).2
      rw [← Nat.add_assoc, run_succ]
      exact (ih (by omega)).1.goes gOffset stable (clean.behind _ (by omega)) (by omega)

theorem CleanEdge.reports (clean : CleanEdge v w p inputs) (atRest : AtRest (!v) s)
    (bound : stable.toNat + gOffset + 8 ≤ 2 ^ 32) :
    let s' := Clocked.run (State.step gOffset stable) s (upTo inputs (w + 2 + words stable (8 - p)))
    let i := inputs (w + 1 + words stable (8 - p))
    s'.rState = rest v ∧ s'.sWe = ((i.edgeI == v) && i.activeI) ∧
      s'.rTimeshift = BitVec.ofNat 32 (8 - p + 8 * words stable (8 - p) + gOffset) := by
  obtain ⟨late, early⟩ := words_spec stable (8 - p)
  obtain ⟨climbing, -⟩ := clean.climbs gOffset stable atRest le_rfl
  rw [show w + 2 + words stable (8 - p) = w + 1 + words stable (8 - p) + 1 by omega, run_succ]
  have behind := clean.behind (w + 1 + words stable (8 - p)) (by omega)
  obtain ⟨state, sWe⟩ := climbing.reports gOffset stable behind late (by omega)
  refine ⟨state, sWe, ?_⟩
  rw [climbing.shift gOffset stable, BitVec.ofNat_add _ gOffset, BitVec.ofNat_eq_ofNat, BitVec.zero_ushiftRight,
    BitVec.add_zero]

/-- No other report comes. -/
theorem CleanEdge.once (clean : CleanEdge v w p inputs) (atRest : AtRest (!v) s)
    (bound : stable.toNat + gOffset + 8 ≤ 2 ^ 32) {k : Nat}
    (reports : (Clocked.run (State.step gOffset stable) s (upTo inputs k)).sWe = true) :
    k = w + 2 + words stable (8 - p) := by
  have done (j : Nat) : (Clocked.run (State.step gOffset stable) s
      (upTo inputs (w + 2 + words stable (8 - p) + j))).rState = rest v := by
    induction j with
    | zero => exact (clean.reports atRest bound).1
    | succ j ih =>
        rw [← Nat.add_assoc, run_succ]
        exact (rest_flat gOffset stable ih (clean.behind _ (by omega))).1
  rcases Nat.lt_or_ge w k with behind | before
  · obtain ⟨j, rfl⟩ := Nat.exists_eq_add_of_le (show w + 1 ≤ k by omega)
    rcases Nat.lt_or_ge (words stable (8 - p)) j with late | early
    · obtain ⟨m, rfl⟩ := Nat.exists_eq_add_of_le (show words stable (8 - p) + 1 ≤ j by omega)
      cases m with
      | zero => omega
      | succ m =>
          rw [show w + 1 + (words stable (8 - p) + 1 + (m + 1)) = w + 2 + words stable (8 - p) + m + 1 by omega,
            run_succ, (rest_flat gOffset stable (done m) (clean.behind _ (by omega))).2] at reports
          cases reports
    · rw [(clean.climbs gOffset stable atRest early).2] at reports
      cases reports
  · rw [(clean.waits atRest before).2] at reports
    cases reports

theorem CleanEdge.tm (clean : CleanEdge v w p inputs) (k : Nat) :
    (inputs (w + k)).tmTaiCycI = (inputs w).tmTaiCycI + BitVec.ofNat 64 k := by
  induction k with
  | zero => simp
  | succ k ih =>
      rw [← Nat.add_assoc, clean.counts, ih, BitVec.ofNat_add]
      exact BitVec.add_assoc ..

/-- An edge is reported with the time of its first sample, eight more and `g_offset` less, whatever `stable_i` is. -/
theorem CleanEdge.time (clean : CleanEdge v w p inputs) (atRest : AtRest (!v) s) (positive : 0 < stable.toNat)
    (bound : stable.toNat + gOffset + 8 ≤ 2 ^ 32) {k : Nat}
    (valid : (Clocked.run (State.step gOffset stable) s (upTo inputs k)).validO = true) :
    (Clocked.run (State.step gOffset stable) s (upTo inputs k)).capturedTimeO =
      ((inputs w).tmTaiCycI ++ 0#3) + BitVec.ofNat 67 (p + 8) - BitVec.ofNat 67 gOffset := by
  match k with
  | 0 =>
      have none := atRest.rWed1
      rw [show Clocked.run (State.step gOffset stable) s (upTo inputs 0) = s from rfl, State.validO, none] at valid
      cases valid
  | 1 =>
      have none := atRest.rWed0
      rw [run_succ, show Clocked.run (State.step gOffset stable) s (upTo inputs 0) = s from rfl] at valid
      exact absurd (none.symm.trans valid) (by decide)
  | k + 2 =>
      rw [run_succ, run_succ] at valid ⊢
      obtain ⟨shows, time⟩ := reported gOffset stable (Clocked.run (State.step gOffset stable) s (upTo inputs k))
        (inputs k) (inputs (k + 1))
      obtain rfl := clean.once atRest bound (shows.symm.trans valid)
      obtain ⟨-, early⟩ := words_spec stable (8 - p)
      have inside := clean.inside
      have start := (inputs w).tmTaiCycI.isLt
      have late : w + 2 + words stable (8 - p) = w + (2 + words stable (8 - p)) := by omega
      rw [time, (clean.reports atRest bound).2.2, late, clean.tm]
      generalize words stable (8 - p) = m at *
      have shift : (8 - p + 8 * m + gOffset) % 2 ^ 32 = 8 - p + 8 * m + gOffset := Nat.mod_eq_of_lt (by omega)
      apply BitVec.eq_of_toNat_eq
      simp only [BitVec.toNat_sub, BitVec.toNat_add, Eca.append_toNat, BitVec.toNat_setWidth, BitVec.toNat_ofNat,
        Nat.zero_mod, shift, Nat.add_zero]
      rw [Nat.mod_eq_of_lt (show 8 - p + 8 * m + gOffset < 2 ^ 67 by omega),
        Nat.mod_eq_of_lt (show p + 8 < 2 ^ (64 + 3) by omega), Nat.mod_eq_of_lt
          (show gOffset < 2 ^ (64 + 3) by omega)]
      omega

theorem CleanEdge.seen (clean : CleanEdge v w p inputs) (atRest : AtRest (!v) s)
    (bound : stable.toNat + gOffset + 8 ≤ 2 ^ 32) (active : ∀ k, (inputs k).activeI = true ∧ (inputs k).edgeI = v) :
    ∃ k, (Clocked.run (State.step gOffset stable) s (upTo inputs k)).validO = true := by
  refine ⟨w + 2 + words stable (8 - p) + 2, ?_⟩
  obtain ⟨on, edge⟩ := active (w + 1 + words stable (8 - p))
  rw [run_succ, run_succ, (reported _ _ _ _ _).1, (clean.reports atRest bound).2.1, on, edge]
  simp

end Edge

end WrCores.WrTlu
