import Mathlib.Tactic
import WrCores.Clocked.Run

/-!
The time counters of wr_pps_gen.vhd, `p_count_nsec` and `p_count_utc`. The commands arrive
here as the register block hands them over to the reference clock, `ext_sync_p` as
`p_external_sync` makes it; `adj_nsec` and `adj_utc` are the values of the registers of
`p_wishbone_loads` in that cycle.
-/

namespace WrCores.PpsGen

open Clocked

structure CounterIn where
  rstRefN : Bool := true
  cntRst : Bool := false
  cntEn : Bool := true
  cntSetP : Bool := false
  secSet : Bool := false
  nsecSet : Bool := false
  extSyncP : Bool := false
  cntrAdjustP : Bool := false
  adjNsec : BitVec 28 := 0
  adjUtc : BitVec 40 := 0
  deriving DecidableEq, Repr

structure Counters where
  cntrNsec : BitVec 28 := 0
  nsOverflow : Bool := false
  nsOverflowAdv : Bool := false
  adjustInProgressNsec : Bool := false
  cntrUtc : BitVec 40 := 0
  adjustInProgressUtc : Bool := false
  deriving DecidableEq, Repr

def CounterIn.resets (i : CounterIn) : Bool := !i.rstRefN || i.cntRst

def CounterIn.setsNsec (i : CounterIn) : Bool := i.cntSetP || i.extSyncP || i.nsecSet

namespace Counters

variable (cPeriod : Nat)

/-- The registers of `p_count_nsec`. -/
def countNsec (s : Counters) (i : CounterIn) : Counters :=
  if i.resets then
    { s with cntrNsec := 0, nsOverflow := false, nsOverflowAdv := false, adjustInProgressNsec := false }
  else if i.cntEn then
    let next := { s with
      nsOverflow := false, nsOverflowAdv := false
      adjustInProgressNsec := s.adjustInProgressNsec || i.cntrAdjustP }
    if i.setsNsec then { next with cntrNsec := i.adjNsec }
    else if s.cntrNsec == BitVec.ofNat 28 (cPeriod - 3) then
      { next with nsOverflowAdv := true, cntrNsec := s.cntrNsec + 1 }
    else if s.cntrNsec == BitVec.ofNat 28 (cPeriod - 2) then
      { next with nsOverflow := true, cntrNsec := s.cntrNsec + 1 }
    else if s.cntrNsec == BitVec.ofNat 28 (cPeriod - 1) then
      if s.adjustInProgressNsec then { next with cntrNsec := i.adjNsec, adjustInProgressNsec := false }
      else { next with cntrNsec := 0 }
    else { next with cntrNsec := s.cntrNsec + 1 }
  else s

/-- The registers of `p_count_utc`. -/
def countUtc (s : Counters) (i : CounterIn) : Counters :=
  if i.resets then { s with cntrUtc := 0, adjustInProgressUtc := false }
  else if i.cntEn then
    if i.cntSetP || i.secSet then { s with cntrUtc := i.adjUtc }
    else if i.cntrAdjustP then
      { s with
        adjustInProgressUtc := true
        cntrUtc := if s.nsOverflow then s.cntrUtc + 1 else s.cntrUtc }
    else if s.adjustInProgressUtc && s.nsOverflow then
      { s with cntrUtc := s.cntrUtc + i.adjUtc + 1, adjustInProgressUtc := false }
    else if s.nsOverflow then { s with cntrUtc := s.cntrUtc + 1 }
    else s
  else s

def step (s : Counters) (i : CounterIn) : Counters :=
  { s.countNsec cPeriod i with
    cntrUtc := (s.countUtc i).cntrUtc
    adjustInProgressUtc := (s.countUtc i).adjustInProgressUtc }

def ppsCsync (s : Counters) : Bool := s.nsOverflow

/-- The time that is shown. -/
def time (s : Counters) : Nat := cPeriod * s.cntrUtc.toNat + s.cntrNsec.toNat

/-! ### Loads -/

/-- The last cycle of a second. -/
def atEnd (s : Counters) : Bool := s.cntrNsec == BitVec.ofNat 28 (cPeriod - 1)

/-- Cycles that load `adj_nsec`: by a command, or where an adjustment takes effect. -/
def loads (s : Counters) (i : CounterIn) : Bool :=
  !i.resets && i.cntEn && (i.setsNsec || (s.adjustInProgressNsec && s.atEnd cPeriod))

/-- Cycles of the free running counter. -/
def free (s : Counters) (i : CounterIn) : Bool :=
  !i.resets && i.cntEn && !i.setsNsec && !i.secSet && !i.cntrAdjustP &&
    !(s.adjustInProgressNsec && s.atEnd cPeriod) && !(s.adjustInProgressUtc && s.nsOverflow)

/-- The pulse that moves the seconds is there in the last cycle of each. -/
structure InStep (s : Counters) : Prop where
  bound : s.cntrNsec.toNat < cPeriod
  pulse : s.ppsCsync = true ↔ s.cntrNsec.toNat = cPeriod - 1

section Edge

variable {cPeriod}
variable {s : Counters} {i : CounterIn} (low : 4 ≤ cPeriod) (high : cPeriod ≤ 2 ^ 28)

include low high in
theorem nsec_eq (value : BitVec 28) {k : Nat} (back : 0 < k) (near : k ≤ 3) :
    (value == BitVec.ofNat 28 (cPeriod - k)) = decide (value.toNat + k = cPeriod) := by
  have small : cPeriod - k < 2 ^ 28 := by omega
  rw [Bool.eq_iff_iff, beq_iff_eq, BitVec.toNat_eq, BitVec.toNat_ofNat, Nat.mod_eq_of_lt small,
    decide_eq_true_iff]
  omega

/-- A cycle that counts without a load. -/
structure Counts (cPeriod : Nat) (s : Counters) (i : CounterIn) : Prop where
  resets : i.resets = false
  enabled : i.cntEn = true
  loads : s.loads cPeriod i = false

include low high in
/-- The counter wraps behind its last value, and the pulse is there with that value. -/
theorem counts_nsec (bound : s.cntrNsec.toNat < cPeriod) (counts : Counts cPeriod s i) :
    (s.step cPeriod i).cntrNsec.toNat =
        (if s.cntrNsec.toNat + 1 = cPeriod then 0 else s.cntrNsec.toNat + 1) ∧
      ((s.step cPeriod i).nsOverflow = true ↔ s.cntrNsec.toNat + 2 = cPeriod) := by
  have third := nsec_eq low high s.cntrNsec (k := 3) (by omega) (by omega)
  have second := nsec_eq low high s.cntrNsec (k := 2) (by omega) (by omega)
  have first := nsec_eq low high s.cntrNsec (k := 1) (by omega) (by omega)
  have plain := counts.loads
  simp only [loads, counts.resets, counts.enabled, atEnd, first] at plain
  have sets : i.setsNsec = false := by
    cases sets : i.setsNsec with
    | false => rfl
    | true => simp [sets] at plain
  by_cases wraps : s.cntrNsec.toNat + 1 = cPeriod
  · have settled : s.adjustInProgressNsec = false := by simpa [sets, wraps] using plain
    simp [step, countNsec, counts.resets, counts.enabled, sets, third, second, first, wraps, settled,
      show s.cntrNsec.toNat + 3 ≠ cPeriod by omega, show s.cntrNsec.toNat + 2 ≠ cPeriod by omega]
  · simp only [step, countNsec, counts.resets, counts.enabled, sets, third, second, first, wraps]
    by_cases adv : s.cntrNsec.toNat + 3 = cPeriod
    · simp [adv]
      omega
    · by_cases last : s.cntrNsec.toNat + 2 = cPeriod
      · simp [adv, last]
        omega
      · simp [adv, last]
        omega

theorem loads_nsec (loaded : s.loads cPeriod i = true) (low : 4 ≤ cPeriod) (high : cPeriod ≤ 2 ^ 28) :
    (s.step cPeriod i).cntrNsec = i.adjNsec ∧ (s.step cPeriod i).nsOverflow = false := by
  have third := nsec_eq low high s.cntrNsec (k := 3) (by omega) (by omega)
  have second := nsec_eq low high s.cntrNsec (k := 2) (by omega) (by omega)
  have first := nsec_eq low high s.cntrNsec (k := 1) (by omega) (by omega)
  simp only [loads, atEnd, first, Bool.and_eq_true, Bool.or_eq_true, Bool.not_eq_true',
    decide_eq_true_iff] at loaded
  obtain ⟨⟨resets, enabled⟩, how⟩ := loaded
  cases sets : i.setsNsec with
  | true => simp [step, countNsec, resets, enabled, sets]
  | false =>
      obtain ⟨adjusts, wraps⟩ : s.adjustInProgressNsec = true ∧ s.cntrNsec.toNat + 1 = cPeriod := by
        simpa [sets] using how
      simp [step, countNsec, resets, enabled, sets, third, second, first, wraps, adjusts,
        show s.cntrNsec.toNat + 3 ≠ cPeriod by omega, show s.cntrNsec.toNat + 2 ≠ cPeriod by omega]

include low in
theorem inStep_silent (silent : s.nsOverflow = false) :
    s.InStep cPeriod ↔ s.cntrNsec.toNat + 1 < cPeriod := by
  constructor
  · intro inStep
    have bound := inStep.bound
    have pulse := inStep.pulse
    rw [ppsCsync, silent] at pulse
    simp only [Bool.false_eq_true, false_iff] at pulse
    omega
  · intro inside
    refine ⟨by omega, ?_⟩
    rw [ppsCsync, silent]
    simp only [Bool.false_eq_true, false_iff]
    omega

include low high in
/-- A load of the last value is what takes the pulse out of step. -/
theorem inStep_iff (inStep : s.InStep cPeriod) :
    (s.step cPeriod i).InStep cPeriod ↔ (s.loads cPeriod i = true → i.adjNsec.toNat + 1 < cPeriod) := by
  cases resets : i.resets with
  | true =>
      have zero : (s.step cPeriod i).cntrNsec = 0#28 ∧ (s.step cPeriod i).nsOverflow = false := by
        simp [step, countNsec, resets]
      have plain : s.loads cPeriod i = false := by simp [loads, resets]
      rw [inStep_silent low zero.2, zero.1, plain, BitVec.toNat_zero]
      simp only [Bool.false_eq_true, false_implies, iff_true]
      omega
  | false =>
      cases enabled : i.cntEn with
      | false =>
          have same : (s.step cPeriod i).cntrNsec = s.cntrNsec ∧
              (s.step cPeriod i).nsOverflow = s.nsOverflow := by
            simp [step, countNsec, resets, enabled]
          have plain : s.loads cPeriod i = false := by simp [loads, enabled]
          refine iff_of_true ⟨?_, ?_⟩ (by simp [plain])
          · rw [same.1]
            exact inStep.bound
          · rw [ppsCsync, same.1, same.2]
            exact inStep.pulse
      | true =>
          cases loaded : s.loads cPeriod i with
          | true =>
              obtain ⟨value, silent⟩ := loads_nsec loaded low high
              rw [inStep_silent low silent, value]
              simp
          | false =>
              obtain ⟨value, pulse⟩ := counts_nsec low high inStep.bound ⟨resets, enabled, loaded⟩
              have bound := inStep.bound
              refine iff_of_true ⟨?_, ?_⟩ (by simp)
              · rw [value]
                split <;> omega
              · rw [ppsCsync, pulse, value]
                split <;> omega

theorem free_counts (running : s.free cPeriod i = true) : Counts cPeriod s i ∧
    (s.step cPeriod i).cntrUtc = if s.nsOverflow then s.cntrUtc + 1 else s.cntrUtc := by
  simp only [free, Bool.and_eq_true, Bool.not_eq_true', Bool.and_eq_false_iff] at running
  obtain ⟨⟨⟨⟨⟨⟨resets, enabled⟩, sets⟩, secSet⟩, adjusts⟩, nsec⟩, utc⟩ := running
  have cntSet : i.cntSetP = false := by
    simp only [CounterIn.setsNsec, Bool.or_eq_false_iff] at sets
    exact sets.1.1
  constructor
  · refine ⟨resets, enabled, ?_⟩
    rcases nsec with nsec | nsec <;> simp [loads, sets, nsec]
  · rcases utc with utc | utc <;>
      simp [step, countUtc, resets, enabled, cntSet, secSet, adjusts, utc, apply_ite Counters.cntrUtc]

include low high in
theorem time_advances (inStep : s.InStep cPeriod) (running : s.free cPeriod i = true) :
    (s.step cPeriod i).time cPeriod = (s.time cPeriod + 1) % (2 ^ 40 * cPeriod) := by
  obtain ⟨counts, utc⟩ := free_counts running
  obtain ⟨value, -⟩ := counts_nsec low high inStep.bound counts
  have bound := inStep.bound
  rw [time, time, utc, value]
  by_cases wraps : s.cntrNsec.toNat + 1 = cPeriod
  · have pulse : s.nsOverflow = true := inStep.pulse.2 (by omega)
    have second : cPeriod * s.cntrUtc.toNat + s.cntrNsec.toNat + 1 = cPeriod * (s.cntrUtc.toNat + 1) := by
      rw [Nat.mul_succ]
      omega
    rw [if_pos wraps, if_pos pulse, second, Nat.mul_comm (2 ^ 40), Nat.mul_mod_mul_left, BitVec.toNat_add]
    rfl
  · have pulse : s.nsOverflow ≠ true := fun set => by
      have := inStep.pulse.1 set
      omega
    have inside : cPeriod * s.cntrUtc.toNat + s.cntrNsec.toNat + 1 < 2 ^ 40 * cPeriod := by
      calc cPeriod * s.cntrUtc.toNat + s.cntrNsec.toNat + 1
          < cPeriod * s.cntrUtc.toNat + cPeriod := by omega
        _ = cPeriod * (s.cntrUtc.toNat + 1) := (Nat.mul_succ _ _).symm
        _ ≤ cPeriod * 2 ^ 40 := Nat.mul_le_mul_left _ s.cntrUtc.isLt
        _ = 2 ^ 40 * cPeriod := Nat.mul_comm _ _
    rw [if_neg wraps, if_neg pulse, Nat.mod_eq_of_lt inside, Nat.add_assoc]

end Edge

/-! ### Whole runs -/

/-- The values that are loaded are times within a second. -/
def legal (s : Counters) (i : CounterIn) : Prop := s.loads cPeriod i = true → i.adjNsec.toNat < cPeriod

/-- From a reset on the pulse marks the last cycle of every second and the time moves on by one
in every cycle that counts, exactly if the last value of a second is never loaded. -/
theorem time_continuous_iff (low : 4 ≤ cPeriod) (high : cPeriod ≤ 2 ^ 28) (cycles : List CounterIn)
    (values : Along (step cPeriod) (legal cPeriod) {} cycles) :
    (Always (step cPeriod) (fun s => s.ppsCsync = true ↔ s.cntrNsec.toNat = cPeriod - 1) {} cycles ∧
      Along (step cPeriod) (fun s i => s.free cPeriod i = true →
        (s.step cPeriod i).time cPeriod = (s.time cPeriod + 1) % (2 ^ 40 * cPeriod)) {} cycles) ↔
    Along (step cPeriod) (fun s i => s.loads cPeriod i = true → i.adjNsec.toNat ≠ cPeriod - 1) {} cycles := by
  have start : InStep cPeriod ({} : Counters) := (inStep_silent low rfl).2 (by simp; omega)
  revert start values
  generalize ({} : Counters) = s
  intro values inStep
  -- By induction on the cycles: in step before each of them.
  induction cycles generalizing s with
  | nil => exact iff_of_true ⟨inStep.pulse, trivial⟩ trivial
  | cons i cycles ih =>
      have next : (s.loads cPeriod i = true → i.adjNsec.toNat ≠ cPeriod - 1) →
          (s.step cPeriod i).InStep cPeriod := by
        intro other
        apply (inStep_iff low high inStep).2
        intro loaded
        have value := values.1 loaded
        have differs := other loaded
        omega
      constructor
      · rintro ⟨pulses, advances⟩
        have other : s.loads cPeriod i = true → i.adjNsec.toNat ≠ cPeriod - 1 := by
          intro loaded last
          obtain ⟨value, silent⟩ := loads_nsec loaded low high
          have pulse := pulses.2.head.2 (by rw [value, last])
          rw [ppsCsync, silent] at pulse
          exact Bool.false_ne_true pulse
        exact ⟨other, (ih _ values.2 (next other)).1 ⟨pulses.2, advances.2⟩⟩
      · rintro ⟨other, later⟩
        obtain ⟨pulses, advances⟩ := (ih _ values.2 (next other)).2 later
        exact ⟨⟨inStep.pulse, pulses⟩, time_advances low high inStep, advances⟩

instance (s : Counters) (i : CounterIn) : Decidable (legal cPeriod s i) :=
  inferInstanceAs (Decidable (_ → _))

/-- The time is set to the last but one cycle of a second and runs on from there. -/
def setBeforeEnd : List CounterIn :=
  [{ cntSetP := true, adjNsec := 124999998, adjUtc := 5 }, {}, {}, { nsecSet := true, adjNsec := 7 }, {}]

theorem time_continuous_before_end :
    Along (step 125000000) (fun s i => s.free 125000000 i = true →
        (s.step 125000000 i).time 125000000 = (s.time 125000000 + 1) % (2 ^ 40 * 125000000)) {}
      setBeforeEnd ∧
    (run (step 125000000) {} setBeforeEnd).cntrUtc = 6 :=
  ⟨((time_continuous_iff 125000000 (by decide) (by decide) setBeforeEnd (by decide)).2
    (by decide)).2, by decide⟩

/-- The time is set to the last cycle of a second, and the second that follows is the same one. -/
theorem second_repeated : ∃ cycles : List CounterIn,
    Along (step 125000000) (legal 125000000) {} cycles ∧
    (run (step 125000000) {} cycles).free 125000000 {} = true ∧
    (run (step 125000000) {} cycles).cntrNsec.toNat = 125000000 - 1 ∧
    (run (step 125000000) {} cycles).ppsCsync = false ∧
    (run (step 125000000) {} cycles).time 125000000 = 125000000 * 5 + 124999999 ∧
    ((run (step 125000000) {} cycles).step 125000000 {}).time 125000000 = 125000000 * 5 := by
  refine ⟨[{ cntSetP := true, adjNsec := 124999999, adjUtc := 5 }], ?_⟩
  decide

end Counters

end WrCores.PpsGen
