import Mathlib.Tactic
import WrCores.PpsGen.Counters

/-!
The adjustment of the time by an offset: a run with the command against the same run without it. An offset of
nanoseconds is a signed number, and so is the counter that was loaded with one.
-/

namespace WrCores.PpsGen.Counters

open Clocked

variable (cPeriod : Nat)

/-- The time, with a counter that stands before the start of its second. -/
def signedTime (s : Counters) : Int := cPeriod * s.cntrUtc.toNat + s.cntrNsec.toInt

def offset (adjNsec : BitVec 28) (adjUtc : BitVec 40) : Int := cPeriod * adjUtc.toNat + adjNsec.toInt

/-- The times that differ by this are the same. -/
def timeModulus : Int := 2 ^ 40 * cPeriod

/-- A cycle without a command and without a reset. -/
structure Quiet (adjNsec : BitVec 28) (adjUtc : BitVec 40) (i : CounterIn) : Prop where
  resets : i.resets = false
  setsNsec : i.setsNsec = false
  secSet : i.secSet = false
  adjusts : i.cntrAdjustP = false
  nsec : i.adjNsec = adjNsec
  utc : i.adjUtc = adjUtc

/-- A cycle with the command to adjust the time, and no other. -/
structure Command (i : CounterIn) : Prop where
  resets : i.resets = false
  setsNsec : i.setsNsec = false
  secSet : i.secSet = false
  adjusts : i.cntrAdjustP = true

/-- The cycle, its command left out. -/
def without (i : CounterIn) : CounterIn := { i with cntrAdjustP := false }

/-- The roll-overs of the seconds in a cycle. -/
def rollovers (s : Counters) (i : CounterIn) : List CounterIn := if i.cntEn && s.atEnd cPeriod then [i] else []

/-- What the command has done after some more cycles: nothing before a roll-over, all of it behind one. -/
def Adjusted (adjNsec : BitVec 28) (adjUtc : BitVec 40) (s : Counters) (i : CounterIn) (rest : List CounterIn) : Prop :=
  let plain := s.step cPeriod (without i)
  let adjusted := run (step cPeriod) (s.step cPeriod i) rest
  if collect (step cPeriod) (rollovers cPeriod) plain rest = [] then
    adjusted.signedTime cPeriod = (run (step cPeriod) plain rest).signedTime cPeriod
  else
    timeModulus cPeriod ∣ adjusted.signedTime cPeriod -
        ((run (step cPeriod) plain rest).signedTime cPeriod + offset cPeriod adjNsec adjUtc) ∧
      adjusted.adjustInProgressNsec = false ∧ adjusted.adjustInProgressUtc = false

section Edge

variable {cPeriod} {adjNsec : BitVec 28} {adjUtc : BitVec 40} {s : Counters} {i : CounterIn}

theorem step_disabled (resets : i.resets = false) (disabled : i.cntEn = false) : s.step cPeriod i = s := by
  simp [step, countNsec, countUtc, resets, disabled]

/-- The counter goes on, and starts again behind its last value. -/
theorem step_nsec (low : 4 ≤ cPeriod) (high : cPeriod ≤ 2 ^ 28) (resets : i.resets = false)
    (sets : i.setsNsec = false) (enabled : i.cntEn = true) :
    (s.step cPeriod i).cntrNsec =
        (if s.cntrNsec.toNat + 1 = cPeriod then (if s.adjustInProgressNsec then i.adjNsec else 0)
          else s.cntrNsec + 1) ∧
      (s.step cPeriod i).nsOverflow = decide (s.cntrNsec.toNat + 2 = cPeriod) ∧
      (s.step cPeriod i).adjustInProgressNsec =
        if s.cntrNsec.toNat + 1 = cPeriod ∧ s.adjustInProgressNsec = true then false
        else s.adjustInProgressNsec || i.cntrAdjustP := by
  have third := nsec_eq low high s.cntrNsec (k := 3) (by omega) (by omega)
  have second := nsec_eq low high s.cntrNsec (k := 2) (by omega) (by omega)
  have first := nsec_eq low high s.cntrNsec (k := 1) (by omega) (by omega)
  by_cases wraps : s.cntrNsec.toNat + 1 = cPeriod
  · have apart : s.cntrNsec.toNat + 3 ≠ cPeriod ∧ s.cntrNsec.toNat + 2 ≠ cPeriod := by omega
    cases pending : s.adjustInProgressNsec <;>
      simp [step, countNsec, resets, enabled, sets, third, second, first, wraps, apart, pending]
  · by_cases adv : s.cntrNsec.toNat + 3 = cPeriod
    · have apart : s.cntrNsec.toNat + 2 ≠ cPeriod := by omega
      simp [step, countNsec, resets, enabled, sets, third, wraps, adv, apart]
    · by_cases last : s.cntrNsec.toNat + 2 = cPeriod <;>
        simp [step, countNsec, resets, enabled, sets, third, second, first, wraps, adv, last]

variable (cPeriod) in
theorem step_utc (resets : i.resets = false) (sets : i.cntSetP = false) (secSet : i.secSet = false)
    (enabled : i.cntEn = true) :
    (s.step cPeriod i).cntrUtc =
        (if s.nsOverflow then
          (if s.adjustInProgressUtc && !i.cntrAdjustP then s.cntrUtc + i.adjUtc + 1 else s.cntrUtc + 1)
          else s.cntrUtc) ∧
      (s.step cPeriod i).adjustInProgressUtc =
        (i.cntrAdjustP || (s.adjustInProgressUtc && !s.nsOverflow)) := by
  cases pulse : s.nsOverflow <;> cases pending : s.adjustInProgressUtc <;> cases adjusts : i.cntrAdjustP <;>
    simp [step, countUtc, resets, enabled, sets, secSet, pulse, pending, adjusts]

theorem cntSetP_of_sets (sets : i.setsNsec = false) : i.cntSetP = false := by
  simp only [CounterIn.setsNsec, Bool.or_eq_false_iff] at sets
  exact sets.1.1

end Edge

/-! ### With and without the command -/

/-- No adjustment is pending, and the pulse is there with the last value of a second. -/
structure Settled (s : Counters) : Prop where
  nsec : s.adjustInProgressNsec = false
  utc : s.adjustInProgressUtc = false
  pulse : s.nsOverflow = decide (s.cntrNsec.toNat + 1 = cPeriod)
  below : s.cntrNsec.toInt < cPeriod

/-- Before the roll-over `t`, with the command, differs from `r` in its flags only. -/
structure Pending (t r : Counters) : Prop where
  value : t.cntrNsec = r.cntrNsec
  overflow : t.nsOverflow = r.nsOverflow
  seconds : t.cntrUtc = r.cntrUtc
  nsec : t.adjustInProgressNsec = true
  utc : t.adjustInProgressUtc = true
  nsec' : r.adjustInProgressNsec = false
  utc' : r.adjustInProgressUtc = false
  pulse : r.nsOverflow = decide (r.cntrNsec.toNat + 1 = cPeriod)

/-- Behind the roll-over. -/
structure Moved (adjNsec : BitVec 28) (adjUtc : BitVec 40) (t r : Counters) : Prop where
  settled : Settled cPeriod t
  settled' : Settled cPeriod r
  apart : timeModulus cPeriod ∣ t.signedTime cPeriod - (r.signedTime cPeriod + offset cPeriod adjNsec adjUtc)

section Runs

variable {cPeriod} {adjNsec : BitVec 28} {adjUtc : BitVec 40} {s t r : Counters} {i : CounterIn}
  (low : 4 ≤ cPeriod) (high : cPeriod ≤ 2 ^ 27)

theorem toInt_cases (x : BitVec 28) :
    (x.toNat < 2 ^ 27 ∧ x.toInt = x.toNat) ∨ (2 ^ 27 ≤ x.toNat ∧ x.toNat < 2 ^ 28 ∧ x.toInt = x.toNat - 2 ^ 28) := by
  have bound := x.isLt
  rw [BitVec.toInt_eq_toNat_cond]
  split
  · left
    exact ⟨by omega, rfl⟩
  · right
    exact ⟨by omega, bound, by norm_num⟩

variable (cPeriod) in
/-- Seconds that are the same up to the width of their counter. -/
theorem seconds_dvd (x y : BitVec 40) (d : Nat) (same : ∃ k : Int, (x.toNat : Int) = y.toNat + d + 2 ^ 40 * k) :
    timeModulus cPeriod ∣ (cPeriod * x.toNat : Int) - (cPeriod * y.toNat + cPeriod * d) := by
  obtain ⟨k, value⟩ := same
  refine ⟨k, ?_⟩
  rw [value, timeModulus]
  ring

theorem succ_second (x : BitVec 40) : ∃ k : Int, ((x + 1).toNat : Int) = x.toNat + (1 : Nat) + 2 ^ 40 * k := by
  have bound := x.isLt
  by_cases wraps : x.toNat + 1 = 2 ^ 40
  · refine ⟨-1, ?_⟩
    have zero : (x + 1).toNat = 0 := by bv_omega
    rw [zero]
    omega
  · refine ⟨0, ?_⟩
    have next : (x + 1).toNat = x.toNat + 1 := by bv_omega
    rw [next]
    omega

theorem moved_second (x y : BitVec 40) :
    ∃ k : Int, ((x + y + 1).toNat : Int) = (x + 1).toNat + (y.toNat : Nat) + 2 ^ 40 * k := by
  have bound := x.isLt
  have bound' := y.isLt
  have shuffled : x + y + 1 = (x + 1) + y := by
    rw [BitVec.add_assoc, BitVec.add_comm y, ← BitVec.add_assoc]
  rw [shuffled]
  generalize x + 1 = z
  have bound'' := z.isLt
  by_cases wraps : 2 ^ 40 ≤ z.toNat + y.toNat
  · refine ⟨-1, ?_⟩
    have sum : (z + y).toNat = z.toNat + y.toNat - 2 ^ 40 := by bv_omega
    rw [sum]
    omega
  · refine ⟨0, ?_⟩
    have sum : (z + y).toNat = z.toNat + y.toNat := by bv_omega
    rw [sum]
    omega

include low high

/-- The time of a settled counter moves on by one. -/
theorem Settled.advance (settled : Settled cPeriod s) (quiet : Quiet adjNsec adjUtc i) (enabled : i.cntEn = true) :
    Settled cPeriod (s.step cPeriod i) ∧
      timeModulus cPeriod ∣ (s.step cPeriod i).signedTime cPeriod - (s.signedTime cPeriod + 1) := by
  obtain ⟨value, pulse, pending⟩ := step_nsec low (by omega) quiet.resets quiet.setsNsec enabled (s := s)
  obtain ⟨seconds, pending'⟩ := step_utc cPeriod quiet.resets (cntSetP_of_sets quiet.setsNsec)
    quiet.secSet enabled (s := s)
  have below := settled.below
  have bound := s.cntrNsec.isLt
  rw [settled.nsec, quiet.adjusts] at pending
  rw [settled.utc, quiet.adjusts] at pending'
  rw [settled.pulse, settled.utc] at seconds
  rw [settled.nsec] at value
  by_cases wraps : s.cntrNsec.toNat + 1 = cPeriod
  · have zero : (s.step cPeriod i).cntrNsec = 0 := by simpa [wraps] using value
    have moved : (s.step cPeriod i).cntrUtc = s.cntrUtc + 1 := by simpa [wraps] using seconds
    refine ⟨⟨by simpa using pending, by simpa using pending', ?_, ?_⟩, ?_⟩
    · rw [pulse, zero]
      simp only [BitVec.ofNat_eq_ofNat, BitVec.toNat_zero, decide_eq_decide]
      omega
    · rw [zero]
      simp only [BitVec.ofNat_eq_ofNat, BitVec.toInt_zero]
      omega
    · have near := seconds_dvd cPeriod _ _ 1 (succ_second s.cntrUtc)
      have last : s.cntrNsec.toInt = cPeriod - 1 := by
        rcases toInt_cases s.cntrNsec with ⟨-, same⟩ | ⟨far, -, -⟩
        · omega
        · omega
      rw [signedTime, signedTime, zero, moved, last]
      simp only [BitVec.ofNat_eq_ofNat, BitVec.toInt_zero]
      convert near using 1
      push_cast
      ring
  · have up : (s.step cPeriod i).cntrNsec = s.cntrNsec + 1 := by simpa [wraps] using value
    have same : (s.step cPeriod i).cntrUtc = s.cntrUtc := by simpa [wraps] using seconds
    -- a value below the last one is not the largest signed number
    have next : (s.cntrNsec + 1).toInt = s.cntrNsec.toInt + 1 ∧ (s.cntrNsec + 1).toInt < cPeriod ∧
        ((s.cntrNsec + 1).toNat + 1 = cPeriod ↔ s.cntrNsec.toNat + 2 = cPeriod) := by
      have sum : (s.cntrNsec + 1).toNat = (s.cntrNsec.toNat + 1) % 2 ^ 28 := BitVec.toNat_add _ _
      rcases toInt_cases s.cntrNsec with ⟨small, eq⟩ | ⟨large, -, eq⟩ <;>
        rcases toInt_cases (s.cntrNsec + 1) with ⟨small', eq'⟩ | ⟨large', -, eq'⟩ <;>
        refine ⟨?_, ?_, ?_⟩ <;> omega
    refine ⟨⟨by simpa using pending, by simpa using pending', ?_, ?_⟩, ?_⟩
    · rw [pulse, up, decide_eq_decide]
      exact next.2.2.symm
    · rw [up]
      exact next.2.1
    · rw [signedTime, signedTime, up, same, next.1]
      ring_nf
      exact dvd_zero _

omit high in
/-- The cycle of the command, whatever the counter stands at. -/
theorem Command.pending (high : cPeriod ≤ 2 ^ 28) (command : Command i) (enabled : i.cntEn = true)
    (free : s.adjustInProgressNsec = false) (free' : s.adjustInProgressUtc = false) :
    Pending cPeriod (s.step cPeriod i) (s.step cPeriod (without i)) := by
  have bound := s.cntrNsec.isLt
  obtain ⟨value, pulse, pending⟩ := step_nsec low high command.resets command.setsNsec enabled (s := s)
  obtain ⟨seconds, pending'⟩ := step_utc cPeriod command.resets (cntSetP_of_sets command.setsNsec)
    command.secSet enabled (s := s)
  obtain ⟨value', pulse', plain⟩ :=
    step_nsec low high (i := without i) command.resets command.setsNsec enabled (s := s)
  obtain ⟨seconds', plain'⟩ := step_utc cPeriod (i := without i) command.resets
    (cntSetP_of_sets command.setsNsec) command.secSet enabled (s := s)
  simp only [free, free', command.adjusts, without, Bool.false_eq_true, if_false, and_false, Bool.or_true,
    Bool.or_false, Bool.false_and] at *
  refine ⟨value.trans value'.symm, pulse.trans pulse'.symm, seconds.trans seconds'.symm, pending, pending', plain,
    plain', ?_⟩
  rw [pulse', value', decide_eq_decide]
  split
  · simp only [BitVec.ofNat_eq_ofNat, BitVec.toNat_zero]
    omega
  · bv_omega

/-- Before the roll-over nothing differs. -/
theorem Pending.wait (pending : Pending cPeriod t r) (quiet : Quiet adjNsec adjUtc i) (enabled : i.cntEn = true)
    (early : r.cntrNsec.toNat + 1 ≠ cPeriod) :
    Pending cPeriod (t.step cPeriod i) (r.step cPeriod i) ∧ (r.step cPeriod i).cntrNsec = r.cntrNsec + 1 := by
  have bound := r.cntrNsec.isLt
  obtain ⟨value, pulse, flag⟩ := step_nsec low (by omega) quiet.resets quiet.setsNsec enabled (s := t)
  obtain ⟨value', pulse', flag'⟩ := step_nsec low (by omega) quiet.resets quiet.setsNsec enabled (s := r)
  obtain ⟨seconds, uflag⟩ := step_utc cPeriod quiet.resets (cntSetP_of_sets quiet.setsNsec)
    quiet.secSet enabled (s := t)
  obtain ⟨seconds', uflag'⟩ := step_utc cPeriod quiet.resets (cntSetP_of_sets quiet.setsNsec)
    quiet.secSet enabled (s := r)
  have silent : r.nsOverflow = false := by rw [pending.pulse, decide_eq_false_iff_not]; exact early
  simp only [pending.value, pending.overflow, pending.seconds, pending.nsec, pending.utc, pending.nsec', pending.utc',
    early, silent, quiet.adjusts, if_false, false_and, Bool.or_false, Bool.false_or, Bool.not_false,
    Bool.and_true, Bool.false_eq_true] at *
  refine ⟨⟨value.trans value'.symm, pulse.trans pulse'.symm, seconds.trans seconds'.symm, flag, uflag, flag', uflag',
    ?_⟩, value'⟩
  rw [pulse', value', decide_eq_decide]
  bv_omega

/-- At the roll-over the offset is loaded in place of zero. -/
theorem Pending.load (pending : Pending cPeriod t r) (quiet : Quiet adjNsec adjUtc i) (enabled : i.cntEn = true)
    (here : r.cntrNsec.toNat + 1 = cPeriod) :
    Settled cPeriod (r.step cPeriod i) ∧ (t.step cPeriod i).cntrNsec = adjNsec ∧
      (t.step cPeriod i).nsOverflow = false ∧ (t.step cPeriod i).adjustInProgressNsec = false ∧
      (t.step cPeriod i).adjustInProgressUtc = false ∧
      timeModulus cPeriod ∣ (t.step cPeriod i).signedTime cPeriod -
        ((r.step cPeriod i).signedTime cPeriod + offset cPeriod adjNsec adjUtc) := by
  obtain ⟨value, pulse, flag⟩ := step_nsec low (by omega) quiet.resets quiet.setsNsec enabled (s := t)
  obtain ⟨value', pulse', flag'⟩ := step_nsec low (by omega) quiet.resets quiet.setsNsec enabled (s := r)
  obtain ⟨seconds, uflag⟩ := step_utc cPeriod quiet.resets (cntSetP_of_sets quiet.setsNsec)
    quiet.secSet enabled (s := t)
  obtain ⟨seconds', uflag'⟩ := step_utc cPeriod quiet.resets (cntSetP_of_sets quiet.setsNsec)
    quiet.secSet enabled (s := r)
  have loud : r.nsOverflow = true := by rw [pending.pulse, decide_eq_true_iff]; exact here
  have later : ¬r.cntrNsec.toNat + 2 = cPeriod := by omega
  simp only [pending.value, pending.overflow, pending.seconds, pending.nsec, pending.utc, pending.nsec', pending.utc',
    here, later, loud, quiet.adjusts, quiet.nsec, quiet.utc, if_true, true_and, Bool.or_false, Bool.not_true,
    Bool.not_false, Bool.and_false, Bool.and_true, decide_false, Bool.false_eq_true, if_false,
    and_false] at *
  refine ⟨⟨flag', uflag', ?_, ?_⟩, value, pulse, flag, uflag, ?_⟩
  · rw [pulse', value', eq_comm, decide_eq_false_iff_not]
    simp only [BitVec.ofNat_eq_ofNat, BitVec.toNat_zero]
    omega
  · rw [value']
    simp only [BitVec.ofNat_eq_ofNat, BitVec.toInt_zero]
    omega
  · have near := seconds_dvd cPeriod _ _ adjUtc.toNat (moved_second r.cntrUtc adjUtc)
    rw [signedTime, signedTime, value, value', seconds, seconds', offset]
    simp only [BitVec.ofNat_eq_ofNat, BitVec.toInt_zero] at near ⊢
    convert near using 1
    ring

theorem Moved.next (moved : Moved cPeriod adjNsec adjUtc t r) (quiet : Quiet adjNsec adjUtc i) :
    Moved cPeriod adjNsec adjUtc (t.step cPeriod i) (r.step cPeriod i) := by
  cases enabled : i.cntEn with
  | false =>
      rw [step_disabled quiet.resets enabled, step_disabled quiet.resets enabled]
      exact moved
  | true =>
      obtain ⟨settled, up⟩ := moved.settled.advance low high quiet enabled
      obtain ⟨settled', up'⟩ := moved.settled'.advance low high quiet enabled
      refine ⟨settled, settled', ?_⟩
      obtain ⟨a, up⟩ := up
      obtain ⟨b, up'⟩ := up'
      obtain ⟨c, apart⟩ := moved.apart
      refine ⟨a - b + c, ?_⟩
      linear_combination up - up' + apart

theorem Moved.after (moved : Moved cPeriod adjNsec adjUtc t r) (rest : List CounterIn)
    (quiet : ∀ j ∈ rest, Quiet adjNsec adjUtc j) :
    Moved cPeriod adjNsec adjUtc (run (step cPeriod) t rest) (run (step cPeriod) r rest) := by
  induction rest generalizing t r with
  | nil => exact moved
  | cons i rest ih =>
      exact ih (moved.next low high (quiet i (by simp))) fun j inside => quiet j (by simp [inside])

omit low in
theorem atEnd_eq (low : 4 ≤ cPeriod) : s.atEnd cPeriod = decide (s.cntrNsec.toNat + 1 = cPeriod) :=
  nsec_eq low (by omega) s.cntrNsec (k := 1) (by omega) (by omega)

/-- An offset that is not the last value of a second takes effect with the first roll-over. -/
theorem Pending.after (legal : adjNsec.toInt < cPeriod) (other : adjNsec.toInt ≠ cPeriod - 1)
    (pending : Pending cPeriod t r) (rest : List CounterIn) (quiet : ∀ j ∈ rest, Quiet adjNsec adjUtc j) :
    if collect (step cPeriod) (rollovers cPeriod) r rest = [] then
      Pending cPeriod (run (step cPeriod) t rest) (run (step cPeriod) r rest)
    else Moved cPeriod adjNsec adjUtc (run (step cPeriod) t rest) (run (step cPeriod) r rest) := by
  induction rest generalizing t r with
  | nil => exact pending
  | cons i rest ih =>
      have here := quiet i (by simp)
      have later : ∀ j ∈ rest, Quiet adjNsec adjUtc j := fun j inside => quiet j (by simp [inside])
      rw [collect_cons, run_cons, run_cons]
      cases enabled : i.cntEn with
      | false =>
          have none : rollovers cPeriod r i = [] := by simp [rollovers, enabled]
          rw [none, List.nil_append, step_disabled here.resets enabled, step_disabled here.resets enabled]
          exact ih pending later
      | true =>
          by_cases wraps : r.cntrNsec.toNat + 1 = cPeriod
          · have rolls : rollovers cPeriod r i = [i] := by simp [rollovers, enabled, atEnd_eq high low, wraps]
            rw [rolls, if_neg (by simp)]
            obtain ⟨settled', value, silent, nsec, utc, apart⟩ := pending.load low high here enabled wraps
            have settled : Settled cPeriod (t.step cPeriod i) := by
              refine ⟨nsec, utc, ?_, by rw [value]; exact legal⟩
              rw [silent, value, eq_comm, decide_eq_false_iff_not]
              intro last
              rcases toInt_cases adjNsec with ⟨-, same⟩ | ⟨far, -, -⟩
              · omega
              · omega
            exact (Moved.mk settled settled' apart).after low high rest later
          · have none : rollovers cPeriod r i = [] := by simp [rollovers, atEnd_eq high low, wraps]
            rw [none, List.nil_append]
            exact ih (pending.wait low high here enabled wraps).1 later

theorem Pending.waits (pending : Pending cPeriod t r) (rest : List CounterIn)
    (quiet : ∀ j ∈ rest, Quiet adjNsec adjUtc j) (early : collect (step cPeriod) (rollovers cPeriod) r rest = []) :
    Pending cPeriod (run (step cPeriod) t rest) (run (step cPeriod) r rest) := by
  induction rest generalizing t r with
  | nil => exact pending
  | cons i rest ih =>
      have here := quiet i (by simp)
      have later : ∀ j ∈ rest, Quiet adjNsec adjUtc j := fun j inside => quiet j (by simp [inside])
      rw [collect_cons, List.append_eq_nil_iff] at early
      rw [run_cons, run_cons]
      refine ih ?_ later early.2
      cases enabled : i.cntEn with
      | false =>
          rw [step_disabled here.resets enabled, step_disabled here.resets enabled]
          exact pending
      | true =>
          refine (pending.wait low high here enabled ?_).1
          intro wraps
          simp [rollovers, enabled, atEnd_eq high low, wraps] at early

/-- A cycle that counts, the registers of the adjustment unchanged. -/
def tick (adjNsec : BitVec 28) (adjUtc : BitVec 40) : CounterIn := { adjNsec, adjUtc }

omit low high in
theorem tick_quiet : Quiet adjNsec adjUtc (tick adjNsec adjUtc) := ⟨rfl, rfl, rfl, rfl, rfl, rfl⟩

/-- From wherever it stands the counter comes to the end of a second. -/
theorem reaches_end (adjNsec : BitVec 28) (adjUtc : BitVec 40) (s : Counters) (d : Nat)
    (left : (s.cntrNsec.toNat + d) % 2 ^ 28 + 1 = cPeriod) :
    ∃ k, (run (step cPeriod) s (List.replicate k (tick adjNsec adjUtc))).cntrNsec.toNat + 1 = cPeriod ∧
      collect (step cPeriod) (rollovers cPeriod) s (List.replicate k (tick adjNsec adjUtc)) = [] := by
  induction d generalizing s with
  | zero =>
      have bound := s.cntrNsec.isLt
      refine ⟨0, ?_, rfl⟩
      simp only [List.replicate_zero, run_nil]
      omega
  | succ d ih =>
      by_cases wraps : s.cntrNsec.toNat + 1 = cPeriod
      · exact ⟨0, wraps, rfl⟩
      · have up : (s.step cPeriod (tick adjNsec adjUtc)).cntrNsec = s.cntrNsec + 1 := by
          have value := (step_nsec low (by omega) (i := tick adjNsec adjUtc) rfl rfl rfl (s := s)).1
          rwa [if_neg wraps] at value
        have none : rollovers cPeriod s (tick adjNsec adjUtc) = [] := by
          simp [rollovers, atEnd_eq high low, wraps]
        obtain ⟨k, there, early⟩ := ih (s.step cPeriod (tick adjNsec adjUtc)) (by
          rw [up, BitVec.toNat_add]
          simp only [BitVec.ofNat_eq_ofNat, BitVec.toNat_ofNat]
          omega)
        refine ⟨k + 1, there, ?_⟩
        rw [List.replicate_succ, collect_cons, none, List.nil_append]
        exact early

omit low high in
theorem replicate_quiet (k : Nat) : ∀ j ∈ List.replicate k (tick adjNsec adjUtc), Quiet adjNsec adjUtc j := by
  intro j inside
  rw [List.eq_of_mem_replicate inside]
  exact tick_quiet

omit high in
theorem modulus_not_dvd (high : cPeriod ≤ 2 ^ 28) : ¬timeModulus cPeriod ∣ (cPeriod : Int) := by
  intro divides
  have bound := Int.le_of_dvd (by omega) divides
  rw [timeModulus] at bound
  omega

/-- The last value of a second is loaded without its pulse, and a second is lost. -/
theorem Pending.lost (last : adjNsec.toInt = cPeriod - 1) (pending : Pending cPeriod t r)
    (here : r.cntrNsec.toNat + 1 = cPeriod) : ¬timeModulus cPeriod ∣
      (run (step cPeriod) t [tick adjNsec adjUtc, tick adjNsec adjUtc]).signedTime cPeriod -
        ((run (step cPeriod) r [tick adjNsec adjUtc, tick adjNsec adjUtc]).signedTime cPeriod +
          offset cPeriod adjNsec adjUtc) := by
  obtain ⟨settled, value, silent, nsec, utc, apart⟩ := pending.load low high tick_quiet rfl here
  obtain ⟨-, up⟩ := settled.advance low high (tick_quiet : Quiet adjNsec adjUtc _) rfl
  simp only [run_cons, run_nil]
  generalize t.step cPeriod (tick adjNsec adjUtc) = t at *
  generalize r.step cPeriod (tick adjNsec adjUtc) = r at *
  have ends : t.cntrNsec.toNat + 1 = cPeriod := by
    rw [value]
    rcases toInt_cases adjNsec with ⟨-, same⟩ | ⟨-, -, same⟩ <;> omega
  obtain ⟨value', -⟩ := step_nsec low (by omega) (i := tick adjNsec adjUtc) rfl rfl rfl (s := t)
  obtain ⟨seconds, -⟩ := step_utc cPeriod (i := tick adjNsec adjUtc) rfl rfl rfl rfl (s := t)
  rw [if_pos ends, nsec] at value'
  rw [silent] at seconds
  have lost : (t.step cPeriod (tick adjNsec adjUtc)).signedTime cPeriod = t.signedTime cPeriod - (cPeriod - 1) := by
    rw [signedTime, signedTime, value', seconds, value, last]
    simp
  rw [lost]
  intro divides
  apply modulus_not_dvd low (by omega)
  obtain ⟨a, up⟩ := up
  obtain ⟨b, divides⟩ := divides
  obtain ⟨c, apart⟩ := apart
  refine ⟨c - a - b, ?_⟩
  linear_combination apart - up - divides

omit low high in
theorem flags_clear (rest : List CounterIn) (quiet : ∀ j ∈ rest, Quiet adjNsec adjUtc j)
    (low : 4 ≤ cPeriod) (high : cPeriod ≤ 2 ^ 28) (free : s.adjustInProgressNsec = false)
    (free' : s.adjustInProgressUtc = false) :
    (run (step cPeriod) s rest).adjustInProgressNsec = false ∧
      (run (step cPeriod) s rest).adjustInProgressUtc = false := by
  induction rest generalizing s with
  | nil => exact ⟨free, free'⟩
  | cons i rest ih =>
      have here := quiet i (by simp)
      have later : ∀ j ∈ rest, Quiet adjNsec adjUtc j := fun j inside => quiet j (by simp [inside])
      rw [run_cons]
      cases enabled : i.cntEn with
      | false =>
          rw [step_disabled here.resets enabled]
          exact ih later free free'
      | true =>
          have flag := (step_nsec low high here.resets here.setsNsec enabled (s := s)).2.2
          have flag' := (step_utc cPeriod here.resets (cntSetP_of_sets here.setsNsec) here.secSet enabled
            (s := s)).2
          exact ih later (by simp [flag, free, here.adjusts]) (by simp [flag', free', here.adjusts])

end Runs

/-- From any state without a pending adjustment; the offset is one of the range that can be meant. -/
theorem adjustment_exact_iff (low : 4 ≤ cPeriod) (high : cPeriod ≤ 2 ^ 27) (s : Counters) (i : CounterIn)
    (free : s.adjustInProgressNsec = false) (free' : s.adjustInProgressUtc = false) (command : Command i)
    (adjNsec : BitVec 28) (adjUtc : BitVec 40) (legal : adjNsec.toInt < cPeriod) :
    (∀ rest, (∀ j ∈ rest, Quiet adjNsec adjUtc j) → Adjusted cPeriod adjNsec adjUtc s i rest) ↔
      (i.cntEn = true ∧ adjNsec.toInt ≠ cPeriod - 1) ∨
        (i.cntEn = false ∧ timeModulus cPeriod ∣ offset cPeriod adjNsec adjUtc) := by
  obtain ⟨k, ends, early⟩ := reaches_end low high adjNsec adjUtc (s.step cPeriod (without i))
    (cPeriod - 1 + (2 ^ 28 - (s.step cPeriod (without i)).cntrNsec.toNat)) (by
      have bound := (s.step cPeriod (without i)).cntrNsec.isLt
      omega)
  have rolls : ∀ more, collect (step cPeriod) (rollovers cPeriod) (s.step cPeriod (without i))
      (List.replicate k (tick adjNsec adjUtc) ++ tick adjNsec adjUtc :: more) ≠ [] := by
    intro more
    have here : rollovers cPeriod (run (step cPeriod) (s.step cPeriod (without i))
        (List.replicate k (tick adjNsec adjUtc))) (tick adjNsec adjUtc) = [tick adjNsec adjUtc] := by
      rw [rollovers, atEnd_eq high low, ends]
      simp [tick]
    rw [collect_append, collect_cons, here]
    simp
  have whole : ∀ j ∈ List.replicate k (tick adjNsec adjUtc) ++ [tick adjNsec adjUtc, tick adjNsec adjUtc],
      Quiet adjNsec adjUtc j := by
    intro j inside
    rcases List.mem_append.mp inside with inside | inside
    · exact replicate_quiet k j inside
    · simp only [List.mem_cons, List.not_mem_nil, or_false, or_self] at inside
      exact inside ▸ tick_quiet
  cases enabled : i.cntEn with
  | true =>
      have pending := command.pending low (by omega) enabled free free'
      simp only [true_and, Bool.true_eq_false, false_and, or_false]
      constructor
      · intro adjusted last
        have after := adjusted _ whole
        rw [Adjusted, if_neg (rolls _), run_append, run_append] at after
        have waited := pending.waits low high _ (replicate_quiet k) early
        exact waited.lost low high last ends after.1
      · intro other rest quiet
        have after := pending.after low high legal other rest quiet
        rw [Adjusted]
        split
        · rename_i none
          rw [if_pos none] at after
          rw [signedTime, signedTime, after.value, after.seconds]
        · rename_i some
          rw [if_neg some] at after
          exact ⟨after.apart, after.settled.nsec, after.settled.utc⟩
  | false =>
      have same : s.step cPeriod i = s ∧ s.step cPeriod (without i) = s :=
        ⟨step_disabled command.resets enabled, step_disabled command.resets enabled⟩
      simp only [Bool.false_eq_true, false_and, true_and, false_or]
      constructor
      · intro adjusted
        have after := adjusted _ whole
        rw [Adjusted, if_neg (rolls _), same.1, same.2] at after
        have apart := after.1
        rw [sub_add_cancel_left, dvd_neg] at apart
        exact apart
      · intro whole rest quiet
        rw [Adjusted, same.1, same.2]
        split
        · rfl
        · refine ⟨?_, flags_clear rest quiet low (by omega) free free'⟩
          rw [sub_add_cancel_left, dvd_neg]
          exact whole

/-- Three nanoseconds back and two seconds on. -/
theorem adjustment_exact_back :
    Adjusted 10 (-3) 2 {} { cntrAdjustP := true } (List.replicate 12 (tick (-3) 2)) :=
  (adjustment_exact_iff 10 (by decide) (by decide) {} { cntrAdjustP := true } rfl rfl ⟨rfl, rfl, rfl, rfl⟩ (-3) 2
    (by decide)).2 (.inl ⟨rfl, by decide⟩) _ (replicate_quiet 12)

/-- The offset is the last value of a second: one of the two seconds that follow is not counted. -/
theorem adjustment_loses_second :
    (run (step 125000000) {} [{ cntSetP := true, adjNsec := 124999997, adjUtc := 5 }]).adjustInProgressNsec = false ∧
    (run (step 125000000) {} [{ cntSetP := true, adjNsec := 124999997, adjUtc := 5 }]).adjustInProgressUtc = false ∧
    (∀ j ∈ List.replicate 3 (tick 124999999 0), Quiet 124999999 0 j) ∧
    ¬Adjusted 125000000 124999999 0 (run (step 125000000) {} [{ cntSetP := true, adjNsec := 124999997, adjUtc := 5 }])
      { cntrAdjustP := true } (List.replicate 3 (tick 124999999 0)) := by
  refine ⟨by decide, by decide, replicate_quiet 3, ?_⟩
  unfold Adjusted
  decide

end WrCores.PpsGen.Counters
