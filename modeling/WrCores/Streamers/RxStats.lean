import Mathlib.Tactic
import WrCores.Clocked.Run

/-!
xrx_streamers_stats.vhd: the counters of a receiver, its latency statistics and their snapshot. The accumulator
has one bit more than the port that shows it. What the ports show is compared with the cycles counted since the last
reset of the statistics, or with those before the snapshot.
-/

namespace WrCores.Streamers.RxStats

open Clocked

structure StatsIn where
  rstN : Bool := true
  rcvdFrame : Bool := false
  lostBlock : Bool := false
  lostFrame : Bool := false
  lostFramesCnt : BitVec 15 := 0
  rcvdLatency : BitVec 28 := 0
  rcvdLatencyValid : Bool := false
  tmTimeValid : Bool := true
  snapshotEna : Bool := false
  resetStats : Bool := false
  deriving DecidableEq, Repr

/-- The values that are counted, live or held by a snapshot. -/
structure Values (cntWidth accWidth : Nat) where
  rcvdFrameCnt : BitVec cntWidth := 0
  lostFrameCnt : BitVec cntWidth := 0
  lostBlockCnt : BitVec cntWidth := 0
  latencyCnt : BitVec cntWidth := 0
  latencyMax : BitVec 28 := 0
  latencyMin : BitVec 28 := BitVec.allOnes 28
  latencyAcc : BitVec (accWidth + 1) := 0
  latencyAccOverflow : Bool := false
  deriving DecidableEq, Repr

structure Stats (cntWidth accWidth : Nat) where
  live : Values cntWidth accWidth := {}
  d1 : Values cntWidth accWidth := { latencyMin := 0 }
  snapshotEnaD1 : Bool := false
  deriving DecidableEq, Repr

def StatsIn.resets (i : StatsIn) : Bool := !i.rstN || i.resetStats

/-- The latency is a sample. -/
def StatsIn.samples (i : StatsIn) : Bool := i.rcvdLatencyValid && i.tmTimeValid

variable {cntWidth accWidth : Nat}

namespace Values

/-- `p_cnts` and `p_latency_stats` in a cycle without reset. -/
def count (v : Values cntWidth accWidth) (i : StatsIn) : Values cntWidth accWidth where
  rcvdFrameCnt := if i.rcvdFrame then v.rcvdFrameCnt + 1 else v.rcvdFrameCnt
  lostFrameCnt := if i.lostFrame then v.lostFrameCnt + i.lostFramesCnt.setWidth cntWidth else v.lostFrameCnt
  lostBlockCnt := if i.lostBlock then v.lostBlockCnt + 1 else v.lostBlockCnt
  latencyCnt := if i.samples then v.latencyCnt + 1 else v.latencyCnt
  latencyMax := if i.samples && v.latencyMax < i.rcvdLatency then i.rcvdLatency else v.latencyMax
  latencyMin := if i.samples && v.latencyMin > i.rcvdLatency then i.rcvdLatency else v.latencyMin
  latencyAcc := if i.samples then v.latencyAcc + i.rcvdLatency.setWidth (accWidth + 1) else v.latencyAcc
  latencyAccOverflow := v.latencyAccOverflow || i.samples && v.latencyAcc.getLsbD accWidth

end Values

namespace Stats

variable (s : Stats cntWidth accWidth)

def step (s : Stats cntWidth accWidth) (i : StatsIn) : Stats cntWidth accWidth where
  live := if i.resets then {} else s.live.count i
  d1 :=
    if !i.rstN then { latencyMin := 0 }
    else if i.snapshotEna && !s.snapshotEnaD1 then s.live else s.d1
  snapshotEnaD1 := i.rstN && i.snapshotEna

/-- The values on the ports. -/
def shown : Values cntWidth accWidth := if s.snapshotEnaD1 then s.d1 else s.live

def latencyCntO : BitVec cntWidth := s.shown.latencyCnt

def latencyAccOverflowO : Bool := s.shown.latencyAccOverflow

def latencyAccO : BitVec accWidth := s.shown.latencyAcc.setWidth accWidth

def latencyMaxO : BitVec 28 := s.shown.latencyMax

def latencyMinO : BitVec 28 := s.shown.latencyMin

end Stats

/-! ### What was counted -/

/-- The cycles since the last reset of the statistics, and those there were when the snapshot was taken. -/
structure Book where
  since : List StatsIn := []
  snapped : List StatsIn := []

def Book.next (s : Stats cntWidth accWidth) (b : Book) (i : StatsIn) : Book where
  since := if i.resets then [] else b.since ++ [i]
  snapped := if i.snapshotEna && !s.snapshotEnaD1 then b.since else b.snapped

def Book.shown (s : Stats cntWidth accWidth) (b : Book) : List StatsIn :=
  if s.snapshotEnaD1 then b.snapped else b.since

def stepBook (sb : Stats cntWidth accWidth × Book) (i : StatsIn) : Stats cntWidth accWidth × Book :=
  (sb.1.step i, sb.2.next sb.1 i)

/-- The values after some cycles without reset. -/
def counted (cycles : List StatsIn) : Values cntWidth accWidth := cycles.foldl Values.count {}

theorem counted_append (cycles : List StatsIn) (i : StatsIn) :
    (counted (cycles ++ [i]) : Values cntWidth accWidth) = (counted cycles).count i := by
  simp [counted]

/-- The ports show what was counted. -/
structure Kept (sb : Stats cntWidth accWidth × Book) : Prop where
  live : sb.1.live = counted sb.2.since
  held : sb.1.snapshotEnaD1 = true → sb.1.d1 = counted sb.2.snapped

theorem Kept.step {sb : Stats cntWidth accWidth × Book} (kept : Kept sb) (i : StatsIn) : Kept (stepBook sb i) := by
  obtain ⟨s, b⟩ := sb
  constructor
  · cases resets : i.resets with
    | true => simp [stepBook, Stats.step, Book.next, resets, counted]
    | false =>
        have live : s.live = counted b.since := kept.live
        simp [stepBook, Stats.step, Book.next, resets, counted_append, live]
  · intro ena
    have shows : i.rstN = true ∧ i.snapshotEna = true := by simpa [stepBook, Stats.step] using ena
    cases before : s.snapshotEnaD1 with
    | true => simpa [stepBook, Stats.step, Book.next, shows, before] using kept.held before
    | false => simpa [stepBook, Stats.step, Book.next, shows, before] using kept.live

theorem Kept.run {sb : Stats cntWidth accWidth × Book} (kept : Kept sb) (cycles : List StatsIn) :
    Kept (run stepBook sb cycles) := by
  have runs : Along stepBook (fun _ _ => True) sb cycles := along_of_forall (fun _ _ => trivial) sb cycles
  exact runs.invariant Kept (fun _ i kept _ => kept.step i) kept

theorem Kept.shown {sb : Stats cntWidth accWidth × Book} (kept : Kept sb) :
    sb.1.shown = counted (sb.2.shown sb.1) := by
  unfold Stats.shown Book.shown
  cases ena : sb.1.snapshotEnaD1 with
  | true => exact kept.held ena
  | false => exact kept.live

/-! ### Samples -/

def latencies (cycles : List StatsIn) : List (BitVec 28) := (cycles.filter (·.samples)).map (·.rcvdLatency)

def total (samples : List (BitVec 28)) : Nat := (samples.map (·.toNat)).sum

/-- A sample came while the highest bit of the accumulator was set. -/
def Flagged (accWidth : Nat) (samples : List (BitVec 28)) : Prop :=
  ∃ k < samples.length, 2 ^ accWidth ≤ total (samples.take k) % 2 ^ (accWidth + 1)

instance (samples : List (BitVec 28)) : Decidable (Flagged accWidth samples) :=
  inferInstanceAs (Decidable (∃ k < _, _))

theorem total_append (samples : List (BitVec 28)) (x : BitVec 28) : total (samples ++ [x]) =
    total samples + x.toNat := by
  simp [total]

theorem flagged_append (samples : List (BitVec 28)) (x : BitVec 28) : Flagged accWidth (samples ++ [x]) ↔
    Flagged accWidth samples ∨ 2 ^ accWidth ≤ total samples % 2 ^ (accWidth + 1) := by
  unfold Flagged
  constructor
  · rintro ⟨k, inside, full⟩
    rw [List.length_append, List.length_singleton] at inside
    rw [List.take_append_of_le_length (by omega)] at full
    by_cases last : k = samples.length
    · right
      rwa [last, List.take_length] at full
    · exact .inl ⟨k, by omega, full⟩
  · rintro (⟨k, inside, full⟩ | full)
    · refine ⟨k, by simp; omega, ?_⟩
      rwa [List.take_append_of_le_length (by omega)]
    · refine ⟨samples.length, by simp, ?_⟩
      rwa [List.take_left]

/-- The statistics of the samples, each in its width. -/
structure Summed (v : Values cntWidth accWidth) (samples : List (BitVec 28)) : Prop where
  cnt : v.latencyCnt.toNat = samples.length % 2 ^ cntWidth
  acc : v.latencyAcc.toNat = total samples % 2 ^ (accWidth + 1)
  flag : v.latencyAccOverflow = true ↔ Flagged accWidth samples
  above : ∀ x ∈ samples, x ≤ v.latencyMax
  below : ∀ x ∈ samples, v.latencyMin ≤ x
  max : v.latencyMax ∈ samples ∨ (samples = [] ∧ v.latencyMax = 0)
  min : v.latencyMin ∈ samples ∨ (samples = [] ∧ v.latencyMin = BitVec.allOnes 28)

theorem top_set (x : BitVec (accWidth + 1)) : x.getLsbD accWidth = true ↔ 2 ^ accWidth ≤ x.toNat := by
  have bound : x.toNat < 2 * 2 ^ accWidth := by
    have := x.isLt
    rwa [Nat.pow_succ, Nat.mul_comm] at this
  have pos : 0 < 2 ^ accWidth := Nat.two_pow_pos accWidth
  rw [BitVec.getLsbD, Nat.testBit_eq_decide_div_mod_eq, decide_eq_true_iff]
  constructor
  · intro set
    by_contra small
    rw [Nat.div_eq_of_lt (by omega)] at set
    omega
  · intro large
    rw [Nat.div_eq_of_lt_le (k := 1) (by omega) (by omega)]

theorem Summed.sample {v : Values cntWidth accWidth} {samples : List (BitVec 28)} (summed : Summed v samples)
    {i : StatsIn} (takes : i.samples = true) : Summed (v.count i) (samples ++ [i.rcvdLatency]) := by
  constructor
  · simp [Values.count, takes, summed.cnt]
  · simp [Values.count, takes, summed.acc, total_append]
  · rw [flagged_append, ← summed.flag, ← summed.acc, ← top_set]
    simp [Values.count, takes]
  · intro x inside
    simp only [Values.count, takes, Bool.true_and, decide_eq_true_eq]
    rcases List.mem_append.mp inside with old | new
    · have low := summed.above x old
      split
      · bv_omega
      · exact low
    · rw [List.mem_singleton.mp new]
      split
      · exact BitVec.le_refl _
      · bv_omega
  · intro x inside
    simp only [Values.count, takes, Bool.true_and, decide_eq_true_eq]
    rcases List.mem_append.mp inside with old | new
    · have high := summed.below x old
      split
      · bv_omega
      · exact high
    · rw [List.mem_singleton.mp new]
      split
      · exact BitVec.le_refl _
      · bv_omega
  · simp only [Values.count, takes, Bool.true_and, decide_eq_true_eq]
    left
    split
    · simp
    · rename_i low
      rcases summed.max with old | ⟨-, zero⟩
      · exact List.mem_append_left _ old
      · have same : i.rcvdLatency = v.latencyMax := by
          rw [zero] at low ⊢
          bv_omega
        simp [same]
  · simp only [Values.count, takes, Bool.true_and, decide_eq_true_eq]
    left
    split
    · simp
    · rename_i high
      rcases summed.min with old | ⟨-, ones⟩
      · exact List.mem_append_left _ old
      · have same : i.rcvdLatency = v.latencyMin := by
          have full : v.latencyMin.toNat = 2 ^ 28 - 1 := by
            rw [ones]
            decide
          bv_omega
        simp [same]

theorem counted_summed (cycles : List StatsIn) :
    Summed (counted cycles : Values cntWidth accWidth) (latencies cycles) := by
  induction cycles using List.reverseRecOn with
  | nil => constructor <;> simp [counted, latencies, total, Flagged]
  | append_singleton cycles i ih =>
      rw [counted_append]
      cases takes : i.samples with
      | true =>
          have more : latencies (cycles ++ [i]) = latencies cycles ++ [i.rcvdLatency] := by
            simp [latencies, takes]
          rw [more]
          exact ih.sample takes
      | false =>
          have same : latencies (cycles ++ [i]) = latencies cycles := by simp [latencies, takes]
          rw [same]
          obtain ⟨cnt, acc, flag, above, below, max, min⟩ := ih
          constructor <;> simp_all [Values.count]

/-- The ports are exact for the samples, or the sum is flagged. -/
def Exact (s : Stats cntWidth accWidth) (samples : List (BitVec 28)) : Prop :=
  s.latencyAccOverflowO = false →
    s.latencyAccO.toNat = total samples ∧ s.latencyCntO.toNat = samples.length ∧
    (∀ x ∈ samples, s.latencyMinO ≤ x ∧ x ≤ s.latencyMaxO) ∧
    (samples ≠ [] → s.latencyMinO ∈ samples ∧ s.latencyMaxO ∈ samples)

/-- In every state of a run, with the samples since the last reset or those of the snapshot. -/
theorem statistics_exact_iff (cycles : List StatsIn) (s : Stats cntWidth accWidth) (b : Book)
    (reached : run stepBook ({}, {}) cycles = (s, b)) :
    Exact s (latencies (b.shown s)) ↔
      Flagged accWidth (latencies (b.shown s)) ∨
        (total (latencies (b.shown s)) < 2 ^ accWidth ∧ (latencies (b.shown s)).length < 2 ^ cntWidth) := by
  have start : Kept (({}, {}) : Stats cntWidth accWidth × Book) := ⟨rfl, fun ena => by simp at ena⟩
  have shown := (start.run cycles).shown
  rw [reached] at shown
  have summed : Summed (counted (b.shown s) : Values cntWidth accWidth) (latencies (b.shown s)) :=
    counted_summed (b.shown s)
  rw [← shown] at summed
  generalize latencies (b.shown s) = samples at *
  have low : s.latencyAccO.toNat = total samples % 2 ^ accWidth := by
    rw [Stats.latencyAccO, BitVec.toNat_setWidth, summed.acc, Nat.pow_succ, Nat.mod_mul_right_mod]
  constructor
  · intro exact
    by_cases flagged : Flagged accWidth samples
    · exact .inl flagged
    · right
      have quiet : s.latencyAccOverflowO = false := by
        rw [Stats.latencyAccOverflowO, Bool.eq_false_iff]
        exact fun flag => flagged (summed.flag.mp flag)
      obtain ⟨sum, number, -⟩ := exact quiet
      exact ⟨sum ▸ s.latencyAccO.isLt, number ▸ s.latencyCntO.isLt⟩
  · rintro (flagged | ⟨small, few⟩) quiet
    · rw [Stats.latencyAccOverflowO, summed.flag.mpr flagged] at quiet
      exact absurd quiet (by decide)
    · refine ⟨low.trans (Nat.mod_eq_of_lt small), summed.cnt.trans (Nat.mod_eq_of_lt few), ?_, ?_⟩
      · intro x inside
        exact ⟨summed.below x inside, summed.above x inside⟩
      · intro some
        exact ⟨summed.min.resolve_right fun none => some none.1, summed.max.resolve_right fun none => some none.1⟩

def sample (latency : BitVec 28) : StatsIn := { rcvdLatency := latency, rcvdLatencyValid := true }

/-- Two samples, a snapshot and a third sample that it does not hold. -/
theorem statistics_exact_held :
    Exact (run stepBook (({} : Stats 50 64), {}) [sample 5, sample 7, { snapshotEna := true },
        { sample 9 with snapshotEna := true }]).1 [5, 7] :=
  (statistics_exact_iff [sample 5, sample 7, { snapshotEna := true }, { sample 9 with snapshotEna := true }] _ _
    rfl).2 (.inr (by decide))

/-- The sum has left the port, and the flag waits for a sample that may never come. -/
theorem overflow_unflagged : ∃ cycles : List StatsIn,
    ∃ reached, run stepBook (({} : Stats 50 28), {}) cycles = reached ∧
      reached.1.latencyAccOverflowO = false ∧ reached.1.latencyAccO.toNat = 2 ^ 28 - 2 ∧
      total (latencies (reached.2.shown reached.1)) = 2 ^ 29 - 2 ∧
      ¬Exact reached.1 (latencies (reached.2.shown reached.1)) := by
  refine ⟨[sample 0xfffffff, sample 0xfffffff], _, rfl, by decide, by decide, by decide, ?_⟩
  intro exact
  exact absurd (exact (by decide)).1 (by decide)

end WrCores.Streamers.RxStats
