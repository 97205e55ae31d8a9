import Mathlib.Tactic
import WrCores.Clocked.Stream

/-!
`p_deglitch` of dmtd_with_deglitcher.vhd: the state machine that makes phase tags of the sampled clock. The edges are
those of `clk_dmtd_i`, a sample is `clk_i_d3`; `deglitch_threshold_i` does not change. `new_edge_sreg(0)` goes to
`clk_sys_i` through a synchroniser that looks for its rising edges.
-/

namespace WrCores.Timing.Deglitcher

open Clocked

inductive FsmState
  | waitStable0
  | waitEdge
  | gotEdge
  deriving DecidableEq, Repr

structure In where
  rstNDmtdclkI : Bool
  resyncPDmtd : Bool
  resyncStartPDmtd : Bool
  clkDmtdEnI : Bool
  shiftEnI : Bool
  shiftDirI : Bool
  clkID3 : Bool
  deriving DecidableEq, Repr

structure State (g : Nat) where
  state : FsmState
  stabCntr : BitVec 16
  freeCntr : BitVec g
  newEdgeSreg : BitVec 6
  tagInt : BitVec g
  tagO : BitVec g
  resyncDoneDmtd : Bool
  deriving DecidableEq, Repr

variable {g : Nat}

/-- The tags have no reset. -/
structure Restarted (s : State g) : Prop where
  state : s.state = .waitStable0
  stabCntr : s.stabCntr = 0#16
  freeCntr : s.freeCntr = 0#g
  newEdgeSreg : s.newEdgeSreg = 0#6

namespace State

variable (s : State g)

def restarts (i : In) : Bool := !i.rstNDmtdclkI || (i.resyncPDmtd && !s.resyncDoneDmtd)

def restart : State g :=
  { s with state := .waitStable0, stabCntr := 0#16, freeCntr := 0#g, newEdgeSreg := 0#6 }

/-- The phase shifter. -/
def nextFree (i : In) : BitVec g :=
  if !i.shiftEnI then s.freeCntr + 1#g else if i.shiftDirI then s.freeCntr + 2#g else s.freeCntr

/-- `case state` of an enabled cycle. -/
def detect (threshold : BitVec 16) (sample : Bool) : State g :=
  match s.state with
  | .waitStable0 =>
      { s with
        newEdgeSreg := s.newEdgeSreg >>> 1
        stabCntr := if sample then 0#16 else s.stabCntr + 1#16
        state := if s.stabCntr = threshold then .waitEdge else .waitStable0 }
  | .waitEdge => if sample then { s with state := .gotEdge, tagInt := s.freeCntr, stabCntr := 0#16 } else s
  | .gotEdge =>
      let tagInt := if sample then s.tagInt else s.tagInt + 1#g
      -- the last sample does not count for the tag any more
      if s.stabCntr = threshold then
        { s with
          state := .waitStable0, tagO := s.tagInt, newEdgeSreg := BitVec.allOnes 6, stabCntr := 0#16, tagInt }
      else { s with stabCntr := if sample then s.stabCntr + 1#16 else 0#16, tagInt }

def nextResyncDone (i : In) : Bool :=
  if !i.rstNDmtdclkI then true
  else if i.resyncStartPDmtd then false
  else if i.resyncPDmtd then true
  else s.resyncDoneDmtd

def step (threshold : BitVec 16) (i : In) : State g :=
  let next :=
    if s.restarts i then s.restart
    else if i.clkDmtdEnI then { s.detect threshold i.clkID3 with freeCntr := s.nextFree i }
    else s
  { next with resyncDoneDmtd := s.nextResyncDone i }

/-- `new_edge_sreg(0)`. -/
def strobe : Bool := s.newEdgeSreg.getLsbD 0

/-- `tag_o` is written. -/
def tags (threshold : BitVec 16) (i : In) : Bool :=
  !s.restarts i && i.clkDmtdEnI && s.state == .gotEdge && s.stabCntr == threshold

end State

theorem restarted_of_restarts {s : State g} {i : In} (threshold : BitVec 16) (now : s.restarts i = true) :
    Restarted (s.step threshold i) := by
  simp only [State.step, now]
  exact ⟨rfl, rfl, rfl, rfl⟩

/-- What else an edge does when it writes no tag. -/
theorem step_untagged {threshold : BitVec 16} {s : State g} {i : In} (none : s.tags threshold i = false) :
    (s.step threshold i).tagO = s.tagO ∧
      ((s.step threshold i).newEdgeSreg = s.newEdgeSreg ∨ (s.step threshold i).newEdgeSreg = s.newEdgeSreg >>> 1 ∨
        (s.step threshold i).newEdgeSreg = 0#6) := by
  cases restarts : s.restarts i with
  | true => simp [State.step, restarts, State.restart]
  | false =>
      cases enabled : i.clkDmtdEnI with
      | false => simp [State.step, restarts, enabled]
      | true =>
          cases state : s.state with
          | waitStable0 => simp [State.step, restarts, enabled, State.detect, state]
          | waitEdge => cases sample : i.clkID3 <;> simp [State.step, restarts, enabled, State.detect, state, sample]
          | gotEdge =>
              have counting : s.stabCntr ≠ threshold := by simpa [State.tags, restarts, enabled, state] using none
              simp [State.step, restarts, enabled, State.detect, state, counting]

/-! ### The strobe -/

/-- The edge that writes a tag, and no other, takes `new_edge_sreg(0)` from 0 to 1; where it is 1 the tag stays. -/
def Announced (threshold : BitVec 16) (s : State g) (i : In) : Prop :=
  (s.tags threshold i = true ↔ s.strobe = false ∧ (s.step threshold i).strobe = true) ∧
    (s.strobe = true → (s.step threshold i).tagO = s.tagO)

/-- The strobe has gone on by `k` places, one for each cycle in `WAIT_STABLE_0`. -/
def Emptied (threshold : BitVec 16) (s : State g) : Prop :=
  ∃ k, s.newEdgeSreg = BitVec.allOnes 6 >>> k ∧
    match s.state with
    | .waitStable0 => s.stabCntr.toNat ≤ k
    | .waitEdge | .gotEdge => threshold.toNat < k

theorem emptied_restarted {threshold : BitVec 16} {s : State g} (restarted : Restarted s) : Emptied threshold s := by
  refine ⟨6, by rw [restarted.newEdgeSreg]; rfl, ?_⟩
  rw [restarted.state, restarted.stabCntr]
  exact Nat.zero_le 6

theorem count_le (c : BitVec 16) (sample : Bool) {k : Nat} (before : c.toNat ≤ k) :
    (if sample then 0#16 else c + 1#16).toNat ≤ k + 1 := by
  cases sample <;> simp [BitVec.toNat_add]
  omega

theorem emptied_step {threshold : BitVec 16} {s : State g} (i : In) (before : Emptied threshold s) :
    Emptied threshold (s.step threshold i) := by
  cases restarts : s.restarts i with
  | true => exact emptied_restarted (restarted_of_restarts threshold restarts)
  | false =>
      cases enabled : i.clkDmtdEnI with
      | false => simpa [State.step, restarts, enabled, Emptied] using before
      | true =>
          obtain ⟨k, places, count⟩ := before
          cases state : s.state with
          | waitStable0 =>
              rw [state] at count
              refine ⟨k + 1, ?_, ?_⟩
              · simp [State.step, restarts, enabled, State.detect, state, places, BitVec.shiftRight_add]
              · by_cases leaves : s.stabCntr = threshold
                · simp [State.step, restarts, enabled, State.detect, state, leaves]
                  rw [leaves] at count
                  omega
                · simpa [State.step, restarts, enabled, State.detect, state, leaves] using count_le _ _ count
          | waitEdge =>
              rw [state] at count
              refine ⟨k, ?_, ?_⟩ <;>
                cases sample : i.clkID3 <;>
                  simpa [State.step, restarts, enabled, State.detect, state, sample]
          | gotEdge =>
              rw [state] at count
              by_cases full : s.stabCntr = threshold
              · refine ⟨0, ?_, ?_⟩ <;> simp [State.step, restarts, enabled, State.detect, state, full]
              · refine ⟨k, ?_, ?_⟩ <;> simpa [State.step, restarts, enabled, State.detect, state, full]

theorem strobe_of_places {s : State g} {k : Nat} (places : s.newEdgeSreg = BitVec.allOnes 6 >>> k) :
    s.strobe = decide (k < 6) := by
  rw [State.strobe, places, BitVec.getLsbD_ushiftRight, BitVec.getLsbD_allOnes, Nat.add_zero]

theorem announced_of_emptied {threshold : BitVec 16} (long : 5 ≤ threshold.toNat) {s : State g} (i : In)
    (before : Emptied threshold s) : Announced threshold s i := by
  obtain ⟨k, places, count⟩ := before
  have strobe := strobe_of_places places
  cases tags : s.tags threshold i with
  | true =>
      have here : s.restarts i = false ∧ i.clkDmtdEnI = true ∧ s.state = .gotEdge ∧ s.stabCntr = threshold := by
        simpa [State.tags, and_assoc] using tags
      obtain ⟨restarts, enabled, state, full⟩ := here
      rw [state] at count
      have gone : ¬ k < 6 := by simp only at count; omega
      have rises : (s.step threshold i).strobe = true := by
        simp [State.step, restarts, enabled, State.detect, state, full, State.strobe]
      simp [Announced, tags, strobe, gone, rises]
  | false =>
      obtain ⟨kept, shifted⟩ := step_untagged tags
      refine ⟨?_, fun _ => kept⟩
      simp only [tags, strobe, Bool.false_eq_true, false_iff, not_and, Bool.not_eq_true]
      intro gone
      have gone : ¬ k < 6 := by simpa using gone
      rcases shifted with same | next | none
      · rw [strobe_of_places (same.trans places)]
        simpa using gone
      · rw [strobe_of_places (k := k + 1) (by rw [next, places, BitVec.shiftRight_add])]
        simp only [decide_eq_false_iff_not]
        omega
      · rw [State.strobe, none]
        rfl

/-! ### The shortest way to two tags -/

def sampled (sample : Bool) : In := ⟨true, false, false, true, false, false, sample⟩

/-- A clean edge, as early as the detector takes it. -/
def cleanEdge (threshold : Nat) : List In :=
  List.replicate (threshold + 1) (sampled false) ++ List.replicate (threshold + 2) (sampled true)

def start : State g := ⟨.waitStable0, 0#16, 0#g, 0#6, 0#g, 0#g, true⟩

theorem start_restarted : Restarted (start : State g) := ⟨rfl, rfl, rfl, rfl⟩

/-- The control, without the counter and the tags. -/
def State.control (s : State g) : State 0 := ⟨s.state, s.stabCntr, 0#0, s.newEdgeSreg, 0#0, 0#0, s.resyncDoneDmtd⟩

theorem control_step (threshold : BitVec 16) (s : State g) (i : In) :
    (s.step threshold i).control = s.control.step threshold i := by
  have same : s.control.restarts i = s.restarts i := rfl
  cases restarts : s.restarts i with
  | true =>
      simp only [State.step, same, restarts]
      rfl
  | false =>
      cases enabled : i.clkDmtdEnI with
      | false =>
          simp only [State.step, same, restarts, enabled]
          rfl
      | true =>
          simp only [State.step, same, restarts, enabled]
          cases state : s.state <;> cases i.clkID3 <;> by_cases full : s.stabCntr = threshold <;>
            simp [State.detect, State.control, State.nextResyncDone, state, full, BitVec.of_length_zero]

theorem control_run (threshold : BitVec 16) (s : State g) (inputs : List In) :
    (run (fun s i => s.step threshold i) s inputs).control =
      run (fun s i => s.step threshold i) s.control inputs := by
  induction inputs generalizing s with
  | nil => rfl
  | cons i rest ih => rw [run_cons, ih, control_step, run_cons]

/-- The edge that makes the second tag comes with the strobe still 1. -/
def silent (threshold : BitVec 16) : Bool :=
  let before := run (fun s i => s.step threshold i) (start : State 0)
    (cleanEdge threshold.toNat ++ (cleanEdge threshold.toNat).dropLast)
  before.tags threshold (sampled true) && before.strobe

theorem silent_of_low {threshold : BitVec 16} (low : threshold.toNat < 5) : silent threshold = true := by
  have cases : threshold = 0#16 ∨ threshold = 1#16 ∨ threshold = 2#16 ∨ threshold = 3#16 ∨ threshold = 4#16 := by
    simp only [← BitVec.toNat_inj, BitVec.toNat_ofNat]
    omega
  rcases cases with rfl | rfl | rfl | rfl | rfl <;> decide

theorem not_announced (g : Nat) (threshold : BitVec 16) (low : threshold.toNat < 5) :
    ¬ Along (fun s i => s.step threshold i) (Announced threshold) (start : State g)
      (cleanEdge threshold.toNat ++ cleanEdge threshold.toNat) := by
  intro along
  have last : cleanEdge threshold.toNat = (cleanEdge threshold.toNat).dropLast ++ [sampled true] := by
    rw [cleanEdge, List.replicate_succ' (n := threshold.toNat + 1), ← List.append_assoc, List.dropLast_concat]
  nth_rewrite 2 [last] at along
  rw [← List.append_assoc, along_append] at along
  obtain ⟨announced, -⟩ := along.2.1
  have second := silent_of_low low
  rw [silent, Bool.and_eq_true, show (start : State 0) = (start : State g).control from rfl, ← control_run] at second
  exact Bool.noConfusion (second.2.symm.trans (announced.1 second.1).1)

/-- Every tag has its strobe, whatever is sampled, enabled and restarted, exactly with a threshold of 5 or more. -/
theorem announced_iff (g : Nat) (threshold : BitVec 16) :
    (∀ (s : State g) (inputs : List In), Restarted s →
        Along (fun s i => s.step threshold i) (Announced threshold) s inputs) ↔ 5 ≤ threshold.toNat := by
  constructor
  · intro all
    by_contra low
    exact not_announced g threshold (Nat.lt_of_not_le low) (all start _ start_restarted)
  · intro long s inputs restarted
    have along : Along (fun s i => s.step threshold i) (fun _ _ => True) s inputs :=
      along_of_forall (fun _ _ => trivial) s inputs
    exact along.yields (Emptied threshold)
      (fun _ i before _ => emptied_step i before) (fun _ i before _ => announced_of_emptied long i before)
      (emptied_restarted restarted)

theorem strobe_missing : ¬ ∀ (threshold : BitVec 16) (s : State 17) (inputs : List In), Restarted s →
    Along (fun s i => s.step threshold i) (Announced threshold) s inputs :=
  fun all => not_announced 17 4#16 (by decide) (all 4#16 start _ start_restarted)

end WrCores.Timing.Deglitcher
