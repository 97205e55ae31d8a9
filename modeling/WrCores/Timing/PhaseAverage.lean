import Mathlib.Tactic
import WrCores.Timing.DmtdPhaseMeas

/-!
`calc_error` of dmtd_phase_meas.vhd. A window has `navg_i` samples, and the sample that reports it is in no window. The
quadrant of the first sample tells on which side a later one has gone past zero.
-/

namespace WrCores.Timing.PhaseMeas

open Clocked

/-- What `calc_error` reads. -/
structure Sampled (n : Nat) where
  rstSysN : Bool
  enI : Bool
  phaseRawP : Bool
  phaseRaw : BitVec n
  deriving DecidableEq, Repr

structure Average where
  acc : BitVec 32
  avgCnt : BitVec 12
  phaseMeasP : Bool
  phaseMeasO : BitVec 32
  storedSign : Bool
  preserveSign : Bool
  deriving DecidableEq, Repr

variable {n : Nat}

def phaseHi (phaseRaw : BitVec n) : Bool := phaseRaw.extractLsb' (n - 2) 2 == 3#2

def phaseLo (phaseRaw : BitVec n) : Bool := phaseRaw.extractLsb' (n - 2) 2 == 0#2

/-- What is added for a sample that is not the first one. -/
def Average.summand (s : Average) (phaseRaw : BitVec n) : BitVec 32 :=
  if s.preserveSign then
    if phaseLo phaseRaw && s.storedSign then phaseRaw.setWidth 32 + BitVec.ofNat 32 (2 ^ n)
    else if phaseHi phaseRaw && !s.storedSign then phaseRaw.setWidth 32 - BitVec.ofNat 32 (2 ^ n)
    else phaseRaw.setWidth 32
  else phaseRaw.setWidth 32

/-- `preserve_sign` has no reset. -/
def Average.calcError (navg : BitVec 12) (s : Average) (i : Sampled n) : Average :=
  if !i.rstSysN || !i.enI then
    { s with acc := 0, avgCnt := 0, phaseMeasP := false, phaseMeasO := 0, storedSign := false }
  else if i.phaseRawP then
    if s.avgCnt = 0 then
      -- the first sample of a window chooses the side
      { s with
        acc := i.phaseRaw.setWidth 32
        preserveSign := phaseLo i.phaseRaw || phaseHi i.phaseRaw
        storedSign :=
          if phaseLo i.phaseRaw then false else if phaseHi i.phaseRaw then true else s.storedSign
        avgCnt := s.avgCnt + 1
        phaseMeasP := false }
    -- the sample that reports the window is not added to one
    else if s.avgCnt = navg then { s with avgCnt := 0, phaseMeasO := s.acc, phaseMeasP := true }
    else { s with avgCnt := s.avgCnt + 1, phaseMeasP := false, acc := s.acc + s.summand i.phaseRaw }
  else { s with phaseMeasP := false }

/-! ### Windows -/

def Sampled.active (i : Sampled n) : Bool := i.rstSysN && i.enI

/-- The samples behind the last reset. -/
def samples (inputs : Nat → Sampled n) : Nat → List (BitVec n)
  | 0 => []
  | t + 1 =>
      if (inputs t).active then
        if (inputs t).phaseRawP then samples inputs t ++ [(inputs t).phaseRaw] else samples inputs t
      else []

/-- The samples of the window that is open; with the last one goes the sample that reports it. -/
def opened (navg : Nat) (taken : List (BitVec n)) : List (BitVec n) :=
  taken.drop (taken.length - taken.length % (navg + 1))

theorem opened_length (navg : Nat) (taken : List (BitVec n)) : (opened navg taken).length = taken.length %
    (navg + 1) := by
  have part := Nat.mod_le taken.length (navg + 1)
  rw [opened, List.length_drop]
  omega

theorem succ_mod (m navg : Nat) : (m + 1) % (navg + 1) = if m % (navg + 1) = navg then 0 else m % (navg + 1) + 1 := by
  have whole := Nat.mod_add_div m (navg + 1)
  have small : m % (navg + 1) < navg + 1 := Nat.mod_lt m (Nat.succ_pos navg)
  split
  next last => exact Nat.succ_mod_succ_eq_zero_iff.2 last
  next inner =>
    rw [show m + 1 = m % (navg + 1) + 1 + (navg + 1) * (m / (navg + 1)) by omega, Nat.add_mul_mod_self_left]
    exact Nat.mod_eq_of_lt (by omega)

theorem opened_snoc (navg : Nat) (taken : List (BitVec n)) (x : BitVec n) :
    opened navg (taken ++ [x]) =
      if (opened navg taken).length = navg then [] else opened navg taken ++ [x] := by
  have part := Nat.mod_le taken.length (navg + 1)
  have next := succ_mod taken.length navg
  rw [opened_length, opened, List.length_append, List.length_singleton, next]
  split
  next last => simp
  next inner =>
    rw [opened, List.drop_append_of_le_length (by omega)]
    congr 2
    omega

/-! ### Representatives -/

/-- A number that stands for the sample on the circle, less than a quarter turn away from the first sample. -/
def Representative (first sample : BitVec n) (r : Int) : Prop :=
  (r = sample.toNat ∨ r = sample.toNat + 2 ^ n ∨ r = sample.toNat - 2 ^ n) ∧ 4 * |r - first.toNat| < 2 ^ n

/-- The number that the quadrants give. -/
def unwrapped (first sample : BitVec n) : Int :=
  if phaseLo sample && phaseHi first then sample.toNat + 2 ^ n
  else if phaseHi sample && phaseLo first then sample.toNat - 2 ^ n
  else sample.toNat

theorem quarter (bits : 2 ≤ n) : 2 ^ n = 2 ^ (n - 2) * 4 := by
  rw [show (4 : Nat) = 2 ^ 2 from rfl, ← pow_add, Nat.sub_add_cancel bits]

theorem quadrant_toNat (bits : 2 ≤ n) (x : BitVec n) : (x.extractLsb' (n - 2) 2).toNat = x.toNat / 2 ^ (n - 2) := by
  have split := quarter bits
  rw [BitVec.extractLsb'_toNat, Nat.shiftRight_eq_div_pow]
  exact Nat.mod_eq_of_lt (Nat.div_lt_of_lt_mul (by have := x.isLt; omega))

theorem phaseLo_iff (bits : 2 ≤ n) (x : BitVec n) : phaseLo x = true ↔ 4 * x.toNat < 2 ^ n := by
  rw [phaseLo, beq_iff_eq, ← BitVec.toNat_inj, quadrant_toNat bits, quarter bits]
  exact (Nat.div_eq_zero_iff_lt (Nat.two_pow_pos (n - 2))).trans (by omega)

theorem phaseHi_iff (bits : 2 ≤ n) (x : BitVec n) : phaseHi x = true ↔ 3 * 2 ^ n ≤ 4 * x.toNat := by
  have bound := x.isLt
  rw [quarter bits] at bound
  rw [phaseHi, beq_iff_eq, ← BitVec.toNat_inj, quadrant_toNat bits, quarter bits,
    show (3#2).toNat = 3 from rfl, Nat.div_eq_iff (Nat.two_pow_pos (n - 2))]
  omega

/-- The turns that a sample is away from its representative can be read off the quadrants. -/
theorem representative_eq (bits : 2 ≤ n) {first sample : BitVec n} {r : Int} (near : Representative first sample r) :
    r = unwrapped first sample := by
  obtain ⟨turns, close⟩ := near
  have firstBound : (first.toNat : Int) < 2 ^ n := by exact_mod_cast first.isLt
  have sampleBound : (sample.toNat : Int) < 2 ^ n := by exact_mod_cast sample.isLt
  have low (x : BitVec n) : phaseLo x = true ↔ 4 * (x.toNat : Int) < 2 ^ n := by
    rw [phaseLo_iff bits]
    norm_cast
  have high (x : BitVec n) : phaseHi x = true ↔ 3 * 2 ^ n ≤ 4 * (x.toNat : Int) := by
    rw [phaseHi_iff bits]
    norm_cast
  have above := le_abs_self (r - first.toNat)
  have below := neg_abs_le (r - first.toNat)
  generalize |r - (first.toNat : Int)| = away at *
  rw [unwrapped]
  split_ifs with after before <;> simp only [Bool.and_eq_true, low, high] at *
  -- what is left is linear in the turn
  all_goals
    generalize (2 : Int) ^ n = turn at *
    omega

/-! ### Windows of the registers -/

/-- The registers while the samples `window` are in the open window. -/
structure Average.Holds (s : Average) (window : List (BitVec n)) : Prop where
  count : s.avgCnt.toNat = window.length
  acc : ∀ first ∈ window.head?, s.acc = BitVec.ofInt 32 (window.map (unwrapped first)).sum ∧
    s.preserveSign = (phaseLo first || phaseHi first) ∧ (s.preserveSign = true → s.storedSign = phaseHi first)

theorem hi_of_lo (x : BitVec n) (lo : phaseLo x = true) : phaseHi x = false := by
  rw [phaseLo, beq_iff_eq] at lo
  rw [phaseHi, lo]
  rfl

theorem setWidth_ofInt (x : BitVec n) : x.setWidth 32 = BitVec.ofInt 32 x.toNat := by
  rw [BitVec.ofInt_natCast, BitVec.ofNat_toNat]

theorem Average.Holds.summand {s : Average} {window : List (BitVec n)} (holds : s.Holds window) {first : BitVec n}
    (head : first ∈ window.head?) (x : BitVec n) : s.summand x = BitVec.ofInt 32 (unwrapped first x) := by
  obtain ⟨_, preserve, stored⟩ := holds.acc first head
  have turn : BitVec.ofNat 32 (2 ^ n) = BitVec.ofInt 32 (2 ^ n) := by
    rw [← BitVec.ofInt_natCast]
    norm_num
  have ahead : x.setWidth 32 + BitVec.ofNat 32 (2 ^ n) = BitVec.ofInt 32 (x.toNat + 2 ^ n) := by
    rw [setWidth_ofInt, turn, BitVec.ofInt_add]
  have behind : x.setWidth 32 - BitVec.ofNat 32 (2 ^ n) = BitVec.ofInt 32 (x.toNat - 2 ^ n) := by
    rw [setWidth_ofInt, turn, Int.sub_eq_add_neg, BitVec.ofInt_add, BitVec.ofInt_neg, BitVec.sub_eq_add_neg]
  rw [Average.summand, unwrapped, ahead, behind, setWidth_ofInt]
  cases lo : phaseLo first with
  | true =>
      have hi := hi_of_lo first lo
      rw [lo, Bool.true_or] at preserve
      rw [preserve, stored preserve, hi]
      cases phaseLo x <;> cases phaseHi x <;> rfl
  | false =>
      rw [lo, Bool.false_or] at preserve
      cases hi : phaseHi first with
      | true =>
          rw [hi] at preserve
          rw [preserve, stored preserve, hi]
          cases phaseLo x <;> cases phaseHi x <;> rfl
      | false =>
          rw [preserve, hi]
          cases phaseLo x <;> cases phaseHi x <;> rfl

def nextWindow (navg : Nat) (window : List (BitVec n)) (i : Sampled n) : List (BitVec n) :=
  if i.active then
    if i.phaseRawP then (if window.length = navg then [] else window ++ [i.phaseRaw]) else window
  else []

/-- The window is reported with this sample. -/
def reports (navg : Nat) (window : List (BitVec n)) (i : Sampled n) : Bool :=
  i.active && i.phaseRawP && decide (window.length = navg)

theorem Average.Holds.step {navg : BitVec 12} (positive : 0 < navg.toNat) {s : Average} {window : List (BitVec n)}
    (holds : s.Holds window) (short : window.length ≤ navg.toNat) (i : Sampled n) :
    (s.calcError navg i).Holds (nextWindow navg.toNat window i) ∧
      (s.calcError navg i).phaseMeasP = reports navg.toNat window i ∧
      (reports navg.toNat window i = true → (s.calcError navg i).phaseMeasO = s.acc) := by
  have empty : s.avgCnt = 0 ↔ window = [] := by
    rw [← BitVec.toNat_inj, holds.count, ← List.length_eq_zero_iff]
    rfl
  have full : s.avgCnt = navg ↔ window.length = navg.toNat := by rw [← BitVec.toNat_inj, holds.count]
  have count (more : window.length < navg.toNat) : (s.avgCnt + 1).toNat = window.length + 1 := by
    have bound := navg.isLt
    rw [BitVec.toNat_add, holds.count, show (1 : BitVec 12).toNat = 1 from rfl, Nat.mod_eq_of_lt (by omega)]
  rw [nextWindow, reports, Average.calcError]
  cases active : i.active with
  | false =>
      have reset : (!i.rstSysN || !i.enI) = true := by
        rw [← Bool.not_and, ← Sampled.active, active]
        rfl
      rw [if_pos reset]
      exact ⟨⟨rfl, fun _ none => by simp at none⟩, rfl, fun none => by simp at none⟩
  | true =>
      have running : ¬ (!i.rstSysN || !i.enI) = true := by
        rw [← Bool.not_and, ← Sampled.active, active]
        decide
      rw [if_neg running]
      cases strobe : i.phaseRawP with
      | false => exact ⟨⟨holds.count, holds.acc⟩, rfl, fun none => by simp at none⟩
      | true =>
          by_cases first : window = []
          -- the sample opens a window
          · rw [if_pos rfl, if_pos (empty.2 first)]
            have open' : window.length ≠ navg.toNat := by
              rw [first, List.length_nil]
              omega
            simp only [Bool.true_and, if_true, if_neg open', decide_eq_false open']
            refine ⟨⟨?_, fun x head => ?_⟩, trivial, fun none => by cases none⟩
            · rw [count (by rw [first, List.length_nil]; omega), List.length_append, List.length_singleton]
            · obtain rfl : i.phaseRaw = x := by simpa [first] using head
              refine ⟨?_, rfl, fun preserved => ?_⟩
              · rw [first, List.nil_append, List.map_singleton, List.sum_singleton, unwrapped, setWidth_ofInt]
                cases lo : phaseLo i.phaseRaw
                · simp
                · simp [hi_of_lo _ lo]
              · cases lo : phaseLo i.phaseRaw
                · have hi : phaseHi i.phaseRaw = true := by simpa [lo] using preserved
                  simp [hi]
                · simp [hi_of_lo _ lo]
          · rw [if_pos rfl, if_neg fun zero => first (empty.1 zero)]
            by_cases last : window.length = navg.toNat
            -- it reports the window
            · rw [if_pos (full.2 last)]
              simp only [Bool.true_and, if_true, if_pos last, decide_eq_true last]
              exact ⟨⟨rfl, fun _ none => by simp at none⟩, trivial, fun _ => trivial⟩
            -- it is added to the window
            · rw [if_neg fun same => last (full.1 same)]
              simp only [Bool.true_and, if_true, if_neg last, decide_eq_false last]
              refine ⟨⟨?_, fun x head => ?_⟩, trivial, fun none => by cases none⟩
              · rw [count (by omega), List.length_append, List.length_singleton]
              · have head' : x ∈ window.head? := by
                  rwa [List.head?_append_of_ne_nil _ first] at head
                obtain ⟨acc, preserve, stored⟩ := holds.acc x head'
                refine ⟨?_, preserve, stored⟩
                rw [holds.summand head', acc, List.map_append, List.sum_append, List.map_singleton,
                  List.sum_singleton,
                  BitVec.ofInt_add]

/-! ### Runs -/

/-- The registers after `t` edges behind a reset, with any value in the register that has none. -/
def averageAt (navg : BitVec 12) (preserve : Bool) (inputs : Nat → Sampled n) (t : Nat) : Average :=
  run (Average.calcError navg) ⟨0, 0, false, 0, false, preserve⟩ (upTo inputs t)

section Run

variable (navg : BitVec 12) (positive : 0 < navg.toNat) (preserve : Bool) (inputs : Nat → Sampled n)

theorem opened_samples (t : Nat) : opened navg.toNat (samples inputs (t + 1)) =
    nextWindow navg.toNat (opened navg.toNat (samples inputs t)) (inputs t) := by
  rw [samples, nextWindow]
  split
  · split
    · exact opened_snoc ..
    · rfl
  · rfl

include positive in
theorem average_holds (t : Nat) :
    (averageAt navg preserve inputs t).Holds (opened navg.toNat (samples inputs t)) := by
  induction t with
  | zero => exact ⟨rfl, fun _ none => by simp [samples, opened] at none⟩
  | succ t ih =>
      have short : (opened navg.toNat (samples inputs t)).length ≤ navg.toNat := by
        rw [opened_length]
        exact Nat.le_of_lt_succ (Nat.mod_lt _ (Nat.succ_pos _))
      rw [opened_samples, averageAt, upTo_snoc, run_append, run_cons, run_nil]
      exact (ih.step positive short (inputs t)).1

theorem sum_representatives (bits : 2 ≤ n) {first : BitVec n} {window : List (BitVec n)} {reps : List Int}
    (near : List.Forall₂ (Representative first) window reps) : reps.sum = (window.map (unwrapped first)).sum := by
  induction near with
  | nil => rfl
  | cons here _ ih => rw [List.map_cons, List.sum_cons, List.sum_cons, ih, representative_eq bits here]

/-- A sample at the end of a window reports it: the sum of the samples in it, each taken as the number on the circle that
is near the first one. -/
theorem average_reported (bits : 2 ≤ n) (some : 0 < navg.toNat) (t : Nat) :
    let after := averageAt navg preserve inputs (t + 1)
    let taken := samples inputs t
    let window := taken.drop (taken.length - navg.toNat)
    (after.phaseMeasP = true ↔
      (inputs t).active = true ∧ (inputs t).phaseRawP = true ∧ taken.length % (navg.toNat + 1) = navg.toNat) ∧
    (after.phaseMeasP = true → window.length = navg.toNat ∧ ∀ first ∈ window.head?, ∀ reps,
      List.Forall₂ (Representative first) window reps → after.phaseMeasO = BitVec.ofInt 32 reps.sum) := by
  intro after taken window
  have before := average_holds navg some preserve inputs t
  have short : (opened navg.toNat taken).length ≤ navg.toNat := by
    rw [opened_length]
    exact Nat.le_of_lt_succ (Nat.mod_lt _ (Nat.succ_pos _))
  obtain ⟨_, shows, value⟩ := before.step some short (inputs t)
  have edge : after = (averageAt navg preserve inputs t).calcError navg (inputs t) := by
    rw [averageAt, ← run_nil (Average.calcError navg) (Average.calcError ..), ← run_cons, ← run_append, ← upTo_snoc]
    rfl
  rw [← edge] at shows value
  have reported : after.phaseMeasP = true ↔
      (inputs t).active = true ∧ (inputs t).phaseRawP = true ∧ taken.length % (navg.toNat + 1) = navg.toNat := by
    rw [shows, reports, opened_length, Bool.and_eq_true, Bool.and_eq_true, decide_eq_true_iff, and_assoc]
  refine ⟨reported, fun now => ?_⟩
  obtain ⟨_, _, last⟩ := reported.1 now
  have part := Nat.mod_le taken.length (navg.toNat + 1)
  have same : opened navg.toNat taken = window := by rw [opened, last]
  rw [same] at before
  refine ⟨by rw [List.length_drop]; omega, fun first head reps near => ?_⟩
  rw [value (shows ▸ now), (before.acc first head).1, sum_representatives bits near]

end Run

/-- The second sample has gone past zero. -/
theorem average_reported_wrapped :
    let inputs : Nat → Sampled 4 := fun t => ⟨true, true, true, if t = 0 then 15 else 1⟩
    let after := averageAt 2 false inputs 3
    let taken := samples inputs 2
    let window := taken.drop (taken.length - 2)
    (after.phaseMeasP = true ↔
      (inputs 2).active = true ∧ (inputs 2).phaseRawP = true ∧ taken.length % (2 + 1) = 2) ∧
    (after.phaseMeasP = true → window.length = 2 ∧ ∀ first ∈ window.head?, ∀ reps,
      List.Forall₂ (Representative first) window reps → after.phaseMeasO = BitVec.ofInt 32 reps.sum) :=
  average_reported 2 false (fun t => ⟨true, true, true, if t = 0 then 15 else 1⟩) (by decide) (by decide) 2

end WrCores.Timing.PhaseMeas
