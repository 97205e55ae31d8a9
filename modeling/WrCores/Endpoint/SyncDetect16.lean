import WrCores.Clocked.Hysteresis
import WrCores.Endpoint.Pkg

/-!
ep_sync_detect_16bit.vhd. `Monitor` is what the detector is for: two idle groups, each with a good group behind it, and
then a level that wrong groups raise and five groups without one lower.
-/

namespace WrCores.Endpoint.SyncDetect16

open Clocked

inductive FsmState
  | lossOfSync
  | cdAcq1
  | cdAcq2
  | cdAcq3
  | syncAcquired1
  | syncAcquired2
  | syncAcquired3
  | syncAcquired4
  | syncAcquired2A
  | syncAcquired3A
  | syncAcquired4A
  deriving DecidableEq

structure In where
  rstN : Bool := true
  enI : Bool := true
  dataI : BitVec 16
  kI : BitVec 2
  errI : Bool := false
  calI : Bool := false
  deriving DecidableEq

def In.validIdle (i : In) : Bool := i.kI == 0b10 && i.dataI.extractLsb' 8 8 == cK28_5 && !i.errI

def In.validData (i : In) : Bool := i.kI == 0b00 && !i.errI

def In.invalidCode (i : In) : Bool := i.errI || (i.kI.getLsbD 0 && i.dataI.extractLsb' 0 8 == cK28_5)

structure State where
  state : FsmState
  syncedO : Bool
  goodCgs : BitVec 3
  deriving DecidableEq

def afterReset : State := ⟨.lossOfSync, false, 0⟩

def fPick {α : Type} (sel : Bool) (w1 w0 : α) : α := if sel then w1 else w0

namespace State

/-- `SYNC_ACQUIRED_2A` and its like: the last assignment to the state wins. -/
def check (s : State) (i : In) (better worse : FsmState) : FsmState :=
  if i.invalidCode then worse else if s.goodCgs = 0b011 && !i.invalidCode then better else s.state

def fsm (s : State) (i : In) : State :=
  match s.state with
  | .lossOfSync => { s with syncedO := false, state := fPick i.validIdle .cdAcq1 .lossOfSync }
  | .cdAcq1 => { s with state := fPick (i.validIdle || i.validData) .cdAcq2 .lossOfSync }
  | .cdAcq2 => { s with state := fPick i.validIdle .cdAcq3 .lossOfSync }
  | .cdAcq3 => { s with state := fPick (i.validIdle || i.validData) .syncAcquired1 .lossOfSync }
  | .syncAcquired1 => { s with syncedO := true, state := fPick i.invalidCode .syncAcquired2 .syncAcquired1 }
  | .syncAcquired2 => { s with goodCgs := 0, state := fPick i.invalidCode .syncAcquired3 .syncAcquired2A }
  | .syncAcquired2A => { s with goodCgs := s.goodCgs + 1, state := s.check i .syncAcquired1 .syncAcquired3 }
  | .syncAcquired3 => { s with goodCgs := 0, state := fPick i.invalidCode .syncAcquired4 .syncAcquired3A }
  | .syncAcquired3A => { s with goodCgs := s.goodCgs + 1, state := s.check i .syncAcquired2 .syncAcquired4 }
  | .syncAcquired4 => { s with goodCgs := 0, state := fPick i.invalidCode .lossOfSync .syncAcquired4A }
  | .syncAcquired4A => { s with goodCgs := s.goodCgs + 1, state := s.check i .syncAcquired3 .lossOfSync }

def step (s : State) (i : In) : State :=
  if !i.rstN then afterReset else if !i.enI then afterReset else if !i.calI then s.fsm i else s

end State

/-! ### The monitor -/

inductive Phase
  | hunt (found : Fin 4)
  | lock (grade : Grade)
  deriving DecidableEq

structure Monitor where
  phase : Phase
  synced : Bool
  deriving DecidableEq

namespace Monitor

def start : Monitor := ⟨.hunt 0, false⟩

def nextPhase (p : Phase) (i : In) : Phase :=
  match p with
  | .hunt 0 => if i.validIdle then .hunt 1 else .hunt 0
  | .hunt 1 => if i.validIdle || i.validData then .hunt 2 else .hunt 0
  | .hunt 2 => if i.validIdle then .hunt 3 else .hunt 0
  | .hunt 3 => if i.validIdle || i.validData then .lock (.held 0 0) else .hunt 0
  | .lock grade => if grade.next 3 5 i.invalidCode = .lost then .hunt 0 else .lock (grade.next 3 5 i.invalidCode)

def locked : Phase → Bool
  | .hunt _ => false
  | .lock _ => true

/-- The port is one edge behind the phase. -/
def step (m : Monitor) (i : In) : Monitor :=
  if !i.rstN || !i.enI then start else if i.calI then m else ⟨nextPhase m.phase i, locked m.phase⟩

end Monitor

/-! ### The detector follows the monitor -/

namespace State

variable {s : State} {i : In}

def phase (s : State) : Phase :=
  match s.state with
  | .lossOfSync => .hunt 0
  | .cdAcq1 => .hunt 1
  | .cdAcq2 => .hunt 2
  | .cdAcq3 => .hunt 3
  | .syncAcquired1 => .lock (.held 0 0)
  | .syncAcquired2 => .lock (.held 1 0)
  | .syncAcquired2A => .lock (.held 1 (s.goodCgs.toNat + 1))
  | .syncAcquired3 => .lock (.held 2 0)
  | .syncAcquired3A => .lock (.held 2 (s.goodCgs.toNat + 1))
  | .syncAcquired4 => .lock (.held 3 0)
  | .syncAcquired4A => .lock (.held 3 (s.goodCgs.toNat + 1))

/-- The counter has not gone past its end, and the port is as it was in `SYNC_ACQUIRED_1` or in `LOSS_OF_SYNC`. -/
def Inv (s : State) : Prop :=
  match s.state with
  | .lossOfSync | .syncAcquired1 => True
  | .cdAcq1 | .cdAcq2 | .cdAcq3 => s.syncedO = false
  | .syncAcquired2 | .syncAcquired3 | .syncAcquired4 => s.syncedO = true
  | .syncAcquired2A | .syncAcquired3A | .syncAcquired4A => s.syncedO = true ∧ s.goodCgs.toNat ≤ 3

theorem check_phase (inv : s.goodCgs.toNat ≤ 3) (better worse : FsmState) :
    (i.invalidCode = true ∧ s.check i better worse = worse) ∨
      (i.invalidCode = false ∧ s.goodCgs.toNat = 3 ∧ s.check i better worse = better) ∨
      (i.invalidCode = false ∧ s.goodCgs.toNat < 3 ∧ s.check i better worse = s.state ∧
        (s.goodCgs + 1).toNat = s.goodCgs.toNat + 1) := by
  rw [check]
  cases invalid : i.invalidCode with
  | true => exact .inl ⟨rfl, rfl⟩
  | false =>
      by_cases last : s.goodCgs = 0b011
      · exact .inr (.inl ⟨rfl, by rw [last]; rfl, by simp [last]⟩)
      · have less : s.goodCgs.toNat ≠ 3 := fun same => last (BitVec.eq_of_toNat_eq same)
        refine .inr (.inr ⟨rfl, by omega, ?_, ?_⟩)
        · rw [if_neg Bool.false_ne_true, decide_eq_false last]
          rfl
        · rw [BitVec.toNat_add, Nat.mod_eq_of_lt (by simp; omega)]
          rfl

/-- In the states that count good groups. -/
theorem counts_follow {level : Nat} (positive : 0 < level) (inv : s.syncedO = true ∧ s.goodCgs.toNat ≤ 3)
    {better worse : FsmState} (moves : s.fsm i = { s with goodCgs := s.goodCgs + 1, state := s.check i better worse })
    (here : ∀ t : State, t.state = s.state → t.phase = .lock (.held level (t.goodCgs.toNat + 1)) ∧
      (t.Inv ↔ t.syncedO = true ∧ t.goodCgs.toNat ≤ 3))
    (down : ∀ t : State, t.state = better → t.phase = .lock (.held (level - 1) 0) ∧ (t.syncedO = true → t.Inv))
    (up : ∀ t : State, t.state = worse → t.phase = (if level = 3 then .hunt 0 else .lock (.held (level + 1) 0)) ∧
      (t.syncedO = true → t.Inv)) :
    (s.fsm i).phase = Monitor.nextPhase s.phase i ∧ (s.fsm i).syncedO = Monitor.locked s.phase ∧ (s.fsm i).Inv := by
  rw [(here s rfl).1, moves]
  refine ⟨?_, inv.1, ?_⟩
  · rcases s.check_phase inv.2 better worse with ⟨invalid, goes⟩ | ⟨valid, last, goes⟩ | ⟨valid, less, stays, more⟩
    · rw [(up _ goes).1, Monitor.nextPhase, invalid, Grade.next]
      by_cases top : level = 3
      · simp [top]
      · simp [top]
    · have grade : (Grade.held level (s.goodCgs.toNat + 1)).next 3 5 false = .held (level - 1) 0 := by
        rw [Grade.next, if_neg positive.ne', if_pos (by omega)]
      rw [(down _ goes).1, Monitor.nextPhase, valid, grade, if_neg (by simp)]
    · have grade : (Grade.held level (s.goodCgs.toNat + 1)).next 3 5 false =
          .held level (s.goodCgs.toNat + 1 + 1) := by
        rw [Grade.next, if_neg positive.ne', if_neg (by omega)]
      rw [(here _ stays).1, more, Monitor.nextPhase, valid, grade, if_neg (by simp)]
  · rcases s.check_phase inv.2 better worse with ⟨-, goes⟩ | ⟨-, -, goes⟩ | ⟨-, less, stays, more⟩
    · exact (up _ goes).2 inv.1
    · exact (down _ goes).2 inv.1
    · exact (here _ stays).2.mpr ⟨inv.1, by simp only; omega⟩

/-- One edge of the state machine. -/
theorem fsm_follows (inv : s.Inv) : (s.fsm i).phase = Monitor.nextPhase s.phase i ∧
    (s.fsm i).syncedO = Monitor.locked s.phase ∧ (s.fsm i).Inv := by
  obtain ⟨state, synced, good⟩ := s
  cases state
  case lossOfSync => cases idle : i.validIdle <;> simp [fsm, phase, Monitor.nextPhase, Monitor.locked, Inv, fPick, idle]
  case cdAcq1 =>
    cases idle : i.validIdle <;> cases data : i.validData <;>
      simp_all [fsm, phase, Monitor.nextPhase, Monitor.locked, Inv, fPick]
  case cdAcq2 => cases idle : i.validIdle <;> simp_all [fsm, phase, Monitor.nextPhase, Monitor.locked, Inv, fPick]
  case cdAcq3 =>
    cases idle : i.validIdle <;> cases data : i.validData <;>
      simp_all [fsm, phase, Monitor.nextPhase, Monitor.locked, Inv, fPick]
  case syncAcquired1 =>
    cases bad : i.invalidCode <;> simp [fsm, phase, Monitor.nextPhase, Monitor.locked, Inv, fPick, Grade.next, bad]
  case syncAcquired2 =>
    cases bad : i.invalidCode <;> simp_all [fsm, phase, Monitor.nextPhase, Monitor.locked, Inv, fPick, Grade.next]
  case syncAcquired3 =>
    cases bad : i.invalidCode <;> simp_all [fsm, phase, Monitor.nextPhase, Monitor.locked, Inv, fPick, Grade.next]
  case syncAcquired4 =>
    cases bad : i.invalidCode <;> simp_all [fsm, phase, Monitor.nextPhase, Monitor.locked, Inv, fPick, Grade.next]
  case syncAcquired2A =>
    refine counts_follow (by decide : 0 < 1) inv rfl ?_ ?_ ?_
    · rintro ⟨state, synced, good⟩ rfl
      exact ⟨rfl, Iff.rfl⟩
    · rintro ⟨state, synced, good⟩ rfl
      exact ⟨rfl, fun _ => trivial⟩
    · rintro ⟨state, synced, good⟩ rfl
      exact ⟨rfl, id⟩
  case syncAcquired3A =>
    refine counts_follow (by decide : 0 < 2) inv rfl ?_ ?_ ?_
    · rintro ⟨state, synced, good⟩ rfl
      exact ⟨rfl, Iff.rfl⟩
    · rintro ⟨state, synced, good⟩ rfl
      exact ⟨rfl, id⟩
    · rintro ⟨state, synced, good⟩ rfl
      exact ⟨rfl, id⟩
  case syncAcquired4A =>
    refine counts_follow (by decide : 0 < 3) inv rfl ?_ ?_ ?_
    · rintro ⟨state, synced, good⟩ rfl
      exact ⟨rfl, Iff.rfl⟩
    · rintro ⟨state, synced, good⟩ rfl
      exact ⟨rfl, id⟩
    · rintro ⟨state, synced, good⟩ rfl
      exact ⟨rfl, fun _ => trivial⟩

def monitor (s : State) : Monitor := ⟨s.phase, s.syncedO⟩

theorem step_follows (inv : s.Inv) : (s.step i).monitor = s.monitor.step i ∧ (s.step i).Inv := by
  obtain ⟨phase, port, kept⟩ := fsm_follows (i := i) inv
  rw [step, Monitor.step]
  cases i.rstN with
  | false => exact ⟨rfl, trivial⟩
  | true =>
      cases i.enI with
      | false => exact ⟨rfl, trivial⟩
      | true =>
          cases i.calI with
          | false => exact ⟨by simp [monitor, phase, port], kept⟩
          | true => exact ⟨rfl, inv⟩

theorem run_follows (inv : s.Inv) (ins : List In) :
    (run step s ins).monitor = run Monitor.step s.monitor ins ∧ (run step s ins).Inv := by
  induction ins generalizing s with
  | nil => exact ⟨rfl, inv⟩
  | cons i rest ih =>
      obtain ⟨same, kept⟩ := step_follows (i := i) inv
      rw [run_cons, run_cons, ← same]
      exact ih kept

end State

/-- The port shows what the monitor shows, whatever comes and however often the detector is reset, disabled or held
by a calibration. -/
theorem follows_monitor (ins : List In) :
    (run State.step afterReset ins).monitor = run Monitor.step Monitor.start ins :=
  (State.run_follows (s := afterReset) trivial ins).1

/-! ### What the level is good for -/

def Plain (i : In) : Prop := i.rstN = true ∧ i.enI = true ∧ i.calI = false

instance (i : In) : Decidable (Plain i) := inferInstanceAs (Decidable (_ ∧ _))

theorem Monitor.step_plain {i : In} (plain : Plain i) (m : Monitor) :
    m.step i = ⟨nextPhase m.phase i, locked m.phase⟩ := by
  rw [step, plain.1, plain.2.1, plain.2.2]
  rfl

/-- While the grade is held the monitor is locked. -/
theorem Monitor.lock_run (ins : List In) (plain : ∀ i ∈ ins, Plain i) (grade : Grade) (synced : Bool)
    {level good : Nat} (held : run (Grade.next 3 5) grade (ins.map In.invalidCode) = .held level good) :
    (run step ⟨.lock grade, synced⟩ ins).phase = .lock (.held level good) := by
  induction ins generalizing grade synced with
  | nil => exact congrArg Phase.lock held
  | cons i rest ih =>
      rw [List.forall_mem_cons] at plain
      rw [List.map_cons, run_cons] at held
      have still : grade.next 3 5 i.invalidCode ≠ .lost := by
        intro lost
        rw [lost, Grade.run_lost] at held
        cases held
      rw [run_cons, step_plain plain.1, nextPhase, if_neg still]
      exact ih plain.2 _ _ held

/-- In `SYNC_ACQUIRED_1` the port stays up as long as five groups without an error come behind every wrong one, and
falls after four wrong groups with less than five others between two of them. -/
theorem hysteresis (before : List In) (acquired : (run State.step afterReset before).state = .syncAcquired1)
    (ins : List In) (plain : ∀ i ∈ ins, Plain i) (i : In) (plain' : Plain i) :
    let port := (run State.step afterReset (before ++ ins ++ [i])).syncedO
    (Grade.Isolated 5 (ins.map In.invalidCode) → port = true) ∧
      ∀ gaps : List Nat, gaps.length = 3 → (∀ goods ∈ gaps, goods < 5) →
        ins.map In.invalidCode = Grade.burst gaps → port = false := by
  intro port
  obtain ⟨synced, start⟩ : ∃ synced, run Monitor.step Monitor.start before = ⟨.lock (.held 0 0), synced⟩ := by
    refine ⟨(run State.step afterReset before).syncedO, ?_⟩
    rw [← follows_monitor, State.monitor, State.phase, acquired]
  have shows : port = Monitor.locked (run Monitor.step ⟨.lock (.held 0 0), synced⟩ ins).phase := by
    have whole := congrArg Monitor.synced (follows_monitor (before ++ ins ++ [i]))
    have split : run Monitor.step Monitor.start (before ++ ins ++ [i]) =
        (run Monitor.step ⟨.lock (.held 0 0), synced⟩ ins).step i := by
      rw [run_append, run_append, start]
      rfl
    rw [split, Monitor.step_plain plain'] at whole
    exact whole
  rw [shows]
  refine ⟨fun isolated => ?_, fun gaps three close events => ?_⟩
  · obtain ⟨level, good, held, -⟩ := Grade.isolated_run (by decide : 0 < 3) (by decide) _ isolated 0 0 (.inl rfl)
    rw [Monitor.lock_run ins plain _ synced held]
    rfl
  · rw [Grade.burst] at events
    obtain ⟨first, last, rfl, climbs, bad⟩ := List.map_eq_append_iff.mp events
    obtain ⟨last, rfl, wrong⟩ := List.map_eq_singleton_iff.mp bad
    obtain ⟨good, held⟩ := Grade.climb_run gaps close 0 0 (by omega : 0 + gaps.length ≤ 3)
    rw [three] at held
    have plain₁ : ∀ i ∈ first, Plain i := fun i member => plain i (List.mem_append_left _ member)
    have top := Monitor.lock_run first plain₁ (.held 0 0) synced (climbs ▸ held)
    rw [run_append, run_cons, run_nil, Monitor.step_plain (plain last (by simp)), top, Monitor.nextPhase, wrong]
    rfl

def idleGroup : In := { dataI := 0xBC50, kI := 0b10 }

def dataGroup : In := { dataI := 0x0000, kI := 0b00 }

def wrongGroup : In := { dataI := 0x0000, kI := 0b00, errI := true }

theorem hysteresis_lost : (run State.step afterReset ([idleGroup, dataGroup, idleGroup, dataGroup] ++
      [wrongGroup, wrongGroup, dataGroup, wrongGroup, dataGroup, dataGroup, wrongGroup] ++ [idleGroup])).syncedO
    = false :=
  (hysteresis [idleGroup, dataGroup, idleGroup, dataGroup] (by decide)
    [wrongGroup, wrongGroup, dataGroup, wrongGroup, dataGroup, dataGroup, wrongGroup] (by decide) idleGroup
    (by decide)).2 [0, 1, 2] rfl (by decide) (by decide)

end WrCores.Endpoint.SyncDetect16
