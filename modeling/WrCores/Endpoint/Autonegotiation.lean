import Mathlib.Data.BitVec
import Mathlib.Tactic
import WrCores.Clocked.Run

/-!
ep_autonegotiation.vhd. `consistency_match` is assigned under a condition without an else: it is `'U'` until the first
word agrees with `rx_config_reg`, and `'1'` from then on, whatever comes. An attempt begins with `AN_ENABLE`; what it has
seen is kept beside the machine.
-/

namespace WrCores.Endpoint.Autonegotiation

open Clocked

abbrev Word := BitVec 16

/-- `t_autoneg_state`. -/
inductive AutonegState where
  | anEnable
  | anRestart
  | anAbilityDetect
  | anDisableLinkOk
  | anAcknowledgeDetect
  | anCompleteAcknowledge
  | anIdleDetect
  | anLinkOk
  deriving DecidableEq, Repr

structure In where
  rstN : Bool := true
  pcsSynced : Bool := true
  anIdleMatch : Bool := false
  anRxVal : Word := 0
  anRxValid : Bool := false
  mdioMcrAnrestart : Bool := false
  mdioMcrAnenable : Bool := true
  mdioAdvertisePause : BitVec 2 := 0
  mdioAdvertiseRfault : BitVec 2 := 0
  deriving DecidableEq, Repr

def linkTimerBits (gSimulation : Bool) : Nat := if gSimulation then 11 else 20

/-- What the registers of the link partner's abilities show. -/
structure MdioLpa where
  npage : Bool
  lpack : Bool
  rfault : BitVec 2
  pause : BitVec 2
  half : Bool
  full : Bool
  deriving DecidableEq, Repr

/-- `none` is `'U'`. -/
structure State (gSimulation : Bool) where
  state : AutonegState
  linkTimer : BitVec (linkTimerBits gSimulation + 1)
  linkTimerRestart : Bool
  anEnableD0 : Bool
  anEnableChanged : Bool
  rxConfigReg : Word
  consistencyMatch : Option Bool
  pcsLinkOk : Bool
  anRxEn : Bool
  anTxEn : Bool
  anTxVal : Word
  mdioLpa : MdioLpa
  mdioMsrAnegcomplete : Bool
  deriving DecidableEq, Repr

structure AfterReset {gSimulation : Bool} (s : State gSimulation) : Prop where
  state : s.state = .anEnable
  linkTimer : s.linkTimer = 0
  linkTimerRestart : s.linkTimerRestart = false
  rxConfigReg : s.rxConfigReg = 0
  pcsLinkOk : s.pcsLinkOk = false
  anRxEn : s.anRxEn = true
  anTxEn : s.anTxEn = false
  anTxVal : s.anTxVal = 0
  lpack : s.mdioLpa.lpack = false
  mdioMsrAnegcomplete : s.mdioMsrAnegcomplete = false

/-- All but the acknowledge bit. -/
def agree (a b : Word) : Bool := a.getLsbD 15 == b.getLsbD 15 && a.extractLsb' 0 14 == b.extractLsb' 0 14

variable {gSimulation : Bool}

namespace State

variable (s : State gSimulation) (i : In)

def linkTimerExpired : Bool := s.linkTimer.msb && !s.linkTimerRestart

def acknowledgeMatch (i : In) : Bool := i.anRxValid && i.anRxVal.getLsbD 14

def consistency : Option Bool :=
  if i.anRxValid && agree s.rxConfigReg i.anRxVal then some true else s.consistencyMatch

def breaklink (i : In) : Bool := i.anRxValid && i.anRxVal == 0

def restarts : Bool := i.mdioMcrAnrestart || s.anEnableChanged || !i.pcsSynced

def ability (i : In) : Word :=
  0#2 ++ i.mdioAdvertiseRfault ++ 0#3 ++ i.mdioAdvertisePause ++ 0#1 ++ 1#1 ++ 0#5

/-- `p_link_timer`, `p_detect_enable_changed` and the flag outside the processes. -/
def beside : State gSimulation :=
  { s with
    linkTimer :=
      if !i.rstN || s.linkTimerRestart then 0 else if s.linkTimerExpired then s.linkTimer else s.linkTimer + 1
    anEnableD0 := i.mdioMcrAnenable
    anEnableChanged := s.anEnableD0 ^^ i.mdioMcrAnenable
    consistencyMatch := s.consistency i }

def fsm (next : State gSimulation) : State gSimulation :=
  match s.state with
  | .anEnable =>
      let next := { next with mdioMsrAnegcomplete := false, pcsLinkOk := false }
      if i.mdioMcrAnenable then
        { next with anTxVal := 0, anTxEn := true, linkTimerRestart := true, state := .anRestart }
      else { next with state := .anDisableLinkOk }
  | .anDisableLinkOk => { next with anTxEn := false, pcsLinkOk := true }
  | .anRestart =>
      { next with
        linkTimerRestart := false
        state := if s.linkTimerExpired then .anAbilityDetect else .anRestart }
  | .anAbilityDetect =>
      let next := { next with anRxEn := true, anTxEn := true, anTxVal := ability i }
      if i.anRxValid && i.anRxVal != 0 then
        { next with state := .anAcknowledgeDetect, rxConfigReg := i.anRxVal }
      else next
  | .anAcknowledgeDetect =>
      let next := { next with anTxVal := s.anTxVal ||| 0x4000#16 }
      if (acknowledgeMatch i && s.consistency i == some false) || breaklink i then
        { next with state := .anEnable }
      else if acknowledgeMatch i && s.consistency i == some true then
        { next with state := .anCompleteAcknowledge, linkTimerRestart := true }
      else next
  | .anCompleteAcknowledge =>
      let v := i.anRxVal
      let next := { next with
        linkTimerRestart := false
        mdioLpa := ⟨v.getLsbD 15, v.getLsbD 14, v.extractLsb' 12 2, v.extractLsb' 7 2, v.getLsbD 6, v.getLsbD 5⟩ }
      if breaklink i then { next with state := .anEnable }
      else if s.linkTimerExpired && (!i.anRxValid || i.anRxVal != 0) then
        { next with linkTimerRestart := true, state := .anIdleDetect }
      else next
  | .anIdleDetect =>
      let next := { next with linkTimerRestart := false, anTxEn := false }
      if breaklink i then { next with state := .anEnable }
      else if i.anIdleMatch && s.linkTimerExpired then { next with state := .anLinkOk }
      else next
  | .anLinkOk =>
      let next := { next with mdioMsrAnegcomplete := true, pcsLinkOk := true }
      if i.anRxValid then { next with state := .anEnable } else next

def step : State gSimulation :=
  let next := s.beside i
  if !i.rstN then
    { next with
      linkTimerRestart := false
      state := .anEnable
      pcsLinkOk := false
      anTxEn := false
      anRxEn := true
      anTxVal := 0
      mdioLpa := { s.mdioLpa with lpack := false }
      mdioMsrAnegcomplete := false
      rxConfigReg := 0 }
  else if s.restarts i then { next with state := .anEnable }
  else s.fsm i next

end State

/-! ### An attempt -/

/-- The cycles since `AN_ENABLE`, with the state in each. -/
abbrev Attempt := List (AutonegState × In)

def stepAttempt (p : State gSimulation × Attempt) (i : In) : State gSimulation × Attempt :=
  (p.1.step i, if (p.1.step i).state = .anEnable then [] else p.2 ++ [(p.1.state, i)])

namespace Attempt

def detects (e : AutonegState × In) : Bool :=
  e.1 == .anAbilityDetect && e.2.anRxValid && e.2.anRxVal != 0

/-- The ability word. -/
def latched (log : Attempt) : Option Word := (log.filter detects).getLast?.map fun e => e.2.anRxVal

def Acknowledges (log : Attempt) (i : In) : Prop :=
  State.acknowledgeMatch i = true ∧ ∃ w, log.latched = some w ∧ agree w i.anRxVal = true

/-- The word was received again, unchanged, with the acknowledge bit. -/
def Twice (log : Attempt) : Prop :=
  ∃ i, (.anAcknowledgeDetect, i) ∈ log ∧ log.Acknowledges i

def Unbroken (log : Attempt) : Prop :=
  ∀ e ∈ log, e.1 = .anAcknowledgeDetect ∨ e.1 = .anCompleteAcknowledge ∨ e.1 = .anIdleDetect →
    State.breaklink e.2 = false

end Attempt

/-- What a cycle may do: complete on a consistent acknowledge, and reach `AN_LINK_OK` behind a word received twice. -/
structure Negotiates (p : State gSimulation × Attempt) (i : In) : Prop where
  completes : p.1.state ≠ .anCompleteAcknowledge → (p.1.step i).state = .anCompleteAcknowledge →
    p.2.Acknowledges i
  linkOk : p.1.state ≠ .anLinkOk → (p.1.step i).state = .anLinkOk →
    Attempt.Twice (stepAttempt p i).2 ∧ Attempt.Unbroken (stepAttempt p i).2

/-- Once the flag is up, an acknowledge that is taken agrees. -/
def Consistent (s : State gSimulation) (i : In) : Prop :=
  s.state = .anAcknowledgeDetect → i.rstN = true → s.restarts i = false → State.acknowledgeMatch i = true →
    s.consistencyMatch = some true → agree s.rxConfigReg i.anRxVal = true

/-! ### One cycle -/

/-- In these states a break-link word ends the attempt. -/
def listens : AutonegState → Bool
  | .anAcknowledgeDetect | .anCompleteAcknowledge | .anIdleDetect => true
  | _ => false

/-- What a cycle does that does not end the attempt. -/
inductive Moves (s : State gSimulation) (i : In) (next : State gSimulation) : Prop
  | stays (same : next.state = s.state) (reg : next.rxConfigReg = s.rxConfigReg)
      (quiet : Attempt.detects (s.state, i) = false) (unbroken : listens s.state = true → State.breaklink i = false)
  | begins (was : s.state = .anEnable) (now : next.state = .anRestart ∨ next.state = .anDisableLinkOk)
  | expires (was : s.state = .anRestart) (now : next.state = .anAbilityDetect)
  | detects (was : s.state = .anAbilityDetect) (now : next.state = .anAcknowledgeDetect)
      (reg : next.rxConfigReg = i.anRxVal) (word : Attempt.detects (s.state, i) = true)
  | completes (was : s.state = .anAcknowledgeDetect) (now : next.state = .anCompleteAcknowledge)
      (reg : next.rxConfigReg = s.rxConfigReg) (on : i.rstN = true) (runs : s.restarts i = false)
      (acknowledge : State.acknowledgeMatch i = true) (flag : s.consistency i = some true)
      (unbroken : State.breaklink i = false)
  | idles (was : s.state = .anCompleteAcknowledge) (now : next.state = .anIdleDetect)
      (reg : next.rxConfigReg = s.rxConfigReg) (unbroken : State.breaklink i = false)
  | links (was : s.state = .anIdleDetect) (now : next.state = .anLinkOk)
      (reg : next.rxConfigReg = s.rxConfigReg) (unbroken : State.breaklink i = false)

section Edge

variable {s : State gSimulation} {i : In}

/-- A word in `AN_ABILITY_DETECT` that counts. -/
def word (i : In) : Bool := i.anRxValid && i.anRxVal != 0

@[simp] theorem beside_state : (s.beside i).state = s.state := rfl

@[simp] theorem beside_rxConfigReg : (s.beside i).rxConfigReg = s.rxConfigReg := rfl

theorem fsm_state : (s.fsm i (s.beside i)).state =
    match s.state with
    | .anEnable => if i.mdioMcrAnenable then .anRestart else .anDisableLinkOk
    | .anDisableLinkOk => .anDisableLinkOk
    | .anRestart => if s.linkTimerExpired then .anAbilityDetect else .anRestart
    | .anAbilityDetect => if word i then .anAcknowledgeDetect else .anAbilityDetect
    | .anAcknowledgeDetect =>
        if (State.acknowledgeMatch i && s.consistency i == some false) || State.breaklink i then .anEnable
        else if State.acknowledgeMatch i && s.consistency i == some true then .anCompleteAcknowledge
        else .anAcknowledgeDetect
    | .anCompleteAcknowledge =>
        if State.breaklink i then .anEnable
        else if s.linkTimerExpired && (!i.anRxValid || i.anRxVal != 0) then .anIdleDetect
        else .anCompleteAcknowledge
    | .anIdleDetect =>
        if State.breaklink i then .anEnable
        else if i.anIdleMatch && s.linkTimerExpired then .anLinkOk
        else .anIdleDetect
    | .anLinkOk => if i.anRxValid then .anEnable else .anLinkOk := by
  cases at_ : s.state <;> simp [State.fsm, at_, word, apply_ite State.state]

theorem fsm_rxConfigReg : (s.fsm i (s.beside i)).rxConfigReg =
    if Attempt.detects (s.state, i) then i.anRxVal else s.rxConfigReg := by
  cases at_ : s.state <;> simp [State.fsm, at_, Attempt.detects, apply_ite State.rxConfigReg]

theorem moves (goes : (s.step i).state ≠ .anEnable) : Moves s i (s.step i) := by
  have on : i.rstN = true := by
    by_contra low
    rw [Bool.not_eq_true] at low
    exact goes (by simp [State.step, low])
  have runs : s.restarts i = false := by
    by_contra high
    rw [Bool.not_eq_false] at high
    exact goes (by simp [State.step, on, high])
  have next : s.step i = s.fsm i (s.beside i) := by simp [State.step, on, runs]
  have state := fsm_state (s := s) (i := i)
  have reg := fsm_rxConfigReg (s := s) (i := i)
  rw [← next] at state reg
  rw [state] at goes
  cases at_ : s.state with
  | anEnable =>
      apply Moves.begins at_
      rw [state, at_]
      cases i.mdioMcrAnenable <;> simp
  | anDisableLinkOk =>
      simp only [at_] at state
      have quiet : Attempt.detects (s.state, i) = false := by rw [at_]; rfl
      exact .stays (by rw [state, at_]) (by rw [reg, quiet]; rfl) quiet (by rw [at_]; simp [listens])
  | anRestart =>
      simp only [at_] at state
      have quiet : Attempt.detects (s.state, i) = false := by rw [at_]; rfl
      cases expired : s.linkTimerExpired with
      | true => exact .expires at_ (by simp [state, expired])
      | false =>
          exact .stays (by simp [state, expired, at_]) (by rw [reg, quiet]; rfl) quiet (by rw [at_]; simp [listens])
  | anAbilityDetect =>
      simp only [at_] at state
      have same : Attempt.detects (s.state, i) = word i := by rw [at_]; rfl
      cases got : word i with
      | true => exact .detects at_ (by simp [state, got]) (by simp [reg, same, got]) (by rw [same, got])
      | false =>
          exact .stays (by simp [state, got, at_]) (by simp [reg, same, got]) (by rw [same, got])
            (by simp [listens, at_])
  | anAcknowledgeDetect =>
      simp only [at_] at state goes
      have quiet : Attempt.detects (s.state, i) = false := by rw [at_]; rfl
      have kept : (s.step i).rxConfigReg = s.rxConfigReg := by rw [reg, quiet]; rfl
      split at goes
      · exact absurd rfl goes
      · rename_i refused
        rw [if_neg refused] at state
        have unbroken : State.breaklink i = false := by
          by_contra broken
          exact refused (by simp [broken])
        split at state
        · rename_i both
          rw [Bool.and_eq_true, beq_iff_eq] at both
          exact .completes at_ state kept on runs both.1 both.2 unbroken
        · exact .stays (by rw [state, at_]) kept quiet fun _ => unbroken
  | anCompleteAcknowledge =>
      simp only [at_] at state goes
      have quiet : Attempt.detects (s.state, i) = false := by rw [at_]; rfl
      have kept : (s.step i).rxConfigReg = s.rxConfigReg := by rw [reg, quiet]; rfl
      split at goes
      · exact absurd rfl goes
      · rename_i unbroken
        rw [if_neg unbroken] at state
        rw [Bool.not_eq_true] at unbroken
        split at state
        · exact .idles at_ state kept unbroken
        · exact .stays (by rw [state, at_]) kept quiet fun _ => unbroken
  | anIdleDetect =>
      simp only [at_] at state goes
      have quiet : Attempt.detects (s.state, i) = false := by rw [at_]; rfl
      have kept : (s.step i).rxConfigReg = s.rxConfigReg := by rw [reg, quiet]; rfl
      split at goes
      · exact absurd rfl goes
      · rename_i unbroken
        rw [if_neg unbroken] at state
        rw [Bool.not_eq_true] at unbroken
        split at state
        · exact .links at_ state kept unbroken
        · exact .stays (by rw [state, at_]) kept quiet fun _ => unbroken
  | anLinkOk =>
      simp only [at_] at state goes
      have quiet : Attempt.detects (s.state, i) = false := by rw [at_]; rfl
      split at goes
      · exact absurd rfl goes
      · rename_i none
        rw [if_neg none] at state
        exact .stays (by rw [state, at_]) (by rw [reg, quiet]; rfl) quiet (by rw [at_]; simp [listens])

end Edge

/-! ### Runs -/

/-- The states behind `AN_ABILITY_DETECT`, and those behind the acknowledge. -/
def latches : AutonegState → Bool
  | .anAcknowledgeDetect | .anCompleteAcknowledge | .anIdleDetect | .anLinkOk => true
  | _ => false

def completed : AutonegState → Bool
  | .anCompleteAcknowledge | .anIdleDetect | .anLinkOk => true
  | _ => false

/-- What an attempt keeps in any run. -/
structure Kept (p : State gSimulation × Attempt) : Prop where
  word : latches p.1.state = true → p.2.latched = some p.1.rxConfigReg
  unbroken : p.2.Unbroken

section Runs

variable {p : State gSimulation × Attempt} {i : In} {log : Attempt} {e : AutonegState × In}

theorem latched_quiet (quiet : Attempt.detects e = false) : Attempt.latched (log ++ [e]) = log.latched := by
  simp [Attempt.latched, List.filter_append, quiet]

theorem latched_word (word : Attempt.detects e = true) : Attempt.latched (log ++ [e]) = some e.2.anRxVal := by
  simp [Attempt.latched, List.filter_append, word]

theorem unbroken_snoc (unbroken : log.Unbroken) (here : listens e.1 = true → State.breaklink e.2 = false) :
    Attempt.Unbroken (log ++ [e]) := by
  intro f member at_
  rcases List.mem_append.1 member with old | new
  · exact unbroken f old at_
  · obtain rfl := List.mem_singleton.1 new
    apply here
    rcases at_ with at_ | at_ | at_ <;> simp [listens, at_]

theorem twice_snoc (twice : log.Twice) (quiet : Attempt.detects e = false) : Attempt.Twice (log ++ [e]) := by
  obtain ⟨i, member, acknowledge, w, latched, agrees⟩ := twice
  exact ⟨i, List.mem_append_left [e] member, acknowledge, w, by rw [latched_quiet quiet, latched], agrees⟩

theorem stepAttempt_fst : (stepAttempt p i).1 = p.1.step i := rfl

theorem stepAttempt_goes (goes : (p.1.step i).state ≠ .anEnable) :
    (stepAttempt p i).2 = p.2 ++ [(p.1.state, i)] := by
  simp [stepAttempt, goes]

theorem stepAttempt_pair {s : State gSimulation} (goes : (s.step i).state ≠ .anEnable) :
    stepAttempt (s, log) i = (s.step i, log ++ [(s.state, i)]) :=
  Prod.ext rfl (stepAttempt_goes (p := (s, log)) goes)

theorem kept_enable (ends : (p.1.step i).state = .anEnable) : Kept (stepAttempt p i) := by
  refine ⟨fun late => ?_, ?_⟩
  · rw [stepAttempt_fst, ends] at late
    simp [latches] at late
  · simp [stepAttempt, ends, Attempt.Unbroken]

/-- Outside `AN_ABILITY_DETECT` nothing is latched. -/
theorem quiet_outside (at_ : p.1.state ≠ .anAbilityDetect) : Attempt.detects (p.1.state, i) = false := by
  simp [Attempt.detects, at_]

theorem kept_step (kept : Kept p) : Kept (stepAttempt p i) := by
  by_cases goes : (p.1.step i).state = .anEnable
  · exact kept_enable goes
  have log := stepAttempt_goes goes
  cases moves goes with
  | stays same reg quiet unbroken =>
      refine ⟨fun late => ?_, log ▸ unbroken_snoc kept.unbroken unbroken⟩
      rw [stepAttempt_fst, same] at late
      rw [log, latched_quiet quiet, kept.word late, stepAttempt_fst, reg]
  | begins was now =>
      refine ⟨fun late => ?_, log ▸ unbroken_snoc kept.unbroken (by simp [was, listens])⟩
      rcases now with now | now <;> simp [stepAttempt_fst, now, latches] at late
  | expires was now =>
      refine ⟨fun late => ?_, log ▸ unbroken_snoc kept.unbroken (by simp [was, listens])⟩
      simp [stepAttempt_fst, now, latches] at late
  | detects was now reg word =>
      refine ⟨fun _ => ?_, log ▸ unbroken_snoc kept.unbroken (by simp [was, listens])⟩
      rw [log, latched_word word, stepAttempt_fst, reg]
  | completes was now reg _ _ _ _ unbroken =>
      refine ⟨fun _ => ?_, log ▸ unbroken_snoc kept.unbroken fun _ => unbroken⟩
      rw [log, latched_quiet (quiet_outside (by simp [was])), kept.word (by simp [was, latches]), stepAttempt_fst,
        reg]
  | idles was now reg unbroken =>
      refine ⟨fun _ => ?_, log ▸ unbroken_snoc kept.unbroken fun _ => unbroken⟩
      rw [log, latched_quiet (quiet_outside (by simp [was])), kept.word (by simp [was, latches]), stepAttempt_fst,
        reg]
  | links was now reg unbroken =>
      refine ⟨fun _ => ?_, log ▸ unbroken_snoc kept.unbroken fun _ => unbroken⟩
      rw [log, latched_quiet (quiet_outside (by simp [was])), kept.word (by simp [was, latches]), stepAttempt_fst,
        reg]

/-- Only an acknowledge completes; with the condition it agrees. -/
theorem completes_rightly (kept : Kept p) (consistent : Consistent p.1 i)
    (before : p.1.state ≠ .anCompleteAcknowledge) (now : (p.1.step i).state = .anCompleteAcknowledge) :
    p.1.state = .anAcknowledgeDetect ∧ p.2.Acknowledges i := by
  have goes : (p.1.step i).state ≠ .anEnable := by simp [now]
  cases moves goes with
  | stays same => exact absurd (same.symm.trans now) before
  | begins _ other => rcases other with other | other <;> simp [other] at now
  | expires _ other => simp [other] at now
  | detects _ other => simp [other] at now
  | idles _ other => simp [other] at now
  | links _ other => simp [other] at now
  | completes was _ _ on runs acknowledge flag _ =>
      refine ⟨was, acknowledge, p.1.rxConfigReg, kept.word (by simp [was, latches]), ?_⟩
      by_cases agrees : (i.anRxValid && agree p.1.rxConfigReg i.anRxVal) = true
      · exact (Bool.and_eq_true _ _ ▸ agrees).2
      · rw [State.consistency, if_neg agrees] at flag
        exact consistent was on runs acknowledge flag

/-- With the condition a completed attempt has had its word twice. -/
structure KeptTwice (p : State gSimulation × Attempt) : Prop extends Kept p where
  twice : completed p.1.state = true → p.2.Twice

theorem keptTwice_step (kept : KeptTwice p) (consistent : Consistent p.1 i) : KeptTwice (stepAttempt p i) := by
  refine ⟨kept_step kept.toKept, fun late => ?_⟩
  rw [stepAttempt_fst] at late
  have goes : (p.1.step i).state ≠ .anEnable := by
    intro ends
    simp [ends, completed] at late
  have log := stepAttempt_goes goes
  cases moves goes with
  | stays same _ quiet _ =>
      rw [same] at late
      exact log ▸ twice_snoc (kept.twice late) quiet
  | begins _ now => rcases now with now | now <;> simp [now, completed] at late
  | expires _ now => simp [now, completed] at late
  | detects _ now => simp [now, completed] at late
  | completes was now =>
      obtain ⟨-, acknowledge, w, latched, agrees⟩ := completes_rightly kept.toKept consistent (by simp [was]) now
      refine ⟨i, ?_, acknowledge, w, ?_, agrees⟩
      · rw [log, was]
        exact List.mem_append_right _ (List.mem_singleton.2 rfl)
      · rw [log, latched_quiet (quiet_outside (by simp [was])), latched]
  | idles was =>
      exact log ▸ twice_snoc (kept.twice (by simp [was, completed])) (quiet_outside (by simp [was]))
  | links was =>
      exact log ▸ twice_snoc (kept.twice (by simp [was, completed])) (quiet_outside (by simp [was]))

/-- Where an acknowledge is taken that does not agree, the attempt completes on it. -/
theorem consistent_of_negotiates (kept : Kept p) (negotiates : Negotiates p i) : Consistent p.1 i := by
  intro was on runs acknowledge flag
  by_contra differs
  have none : State.breaklink i = false := by
    simp only [State.acknowledgeMatch, Bool.and_eq_true] at acknowledge
    by_contra broken
    simp only [State.breaklink, Bool.not_eq_false, Bool.and_eq_true, beq_iff_eq] at broken
    rw [broken.2] at acknowledge
    simp at acknowledge
  have high : p.1.consistency i = some true := by simp [State.consistency, flag]
  have next : p.1.step i = p.1.fsm i (p.1.beside i) := by simp [State.step, on, runs]
  have now : (p.1.step i).state = .anCompleteAcknowledge := by
    rw [next, fsm_state, was]
    simp [acknowledge, high, none]
  obtain ⟨-, w, latched, agrees⟩ := negotiates.completes (by simp [was]) now
  rw [kept.word (by simp [was, latches]), Option.some_inj] at latched
  exact differs (latched ▸ agrees)

end Runs

theorem completes_iff_consistent (s : State gSimulation) (inputs : List In) (reset : AfterReset s) :
    Along stepAttempt Negotiates (s, []) inputs ↔
      Along stepAttempt (fun p i => Consistent p.1 i) (s, []) inputs := by
  have start : KeptTwice ((s, []) : State gSimulation × Attempt) := by
    refine ⟨⟨fun late => ?_, by simp [Attempt.Unbroken]⟩, fun late => ?_⟩
    · simp [reset.state, latches] at late
    · simp [reset.state, completed] at late
  constructor
  · exact Along.yields Kept (fun _ _ kept _ => kept_step kept)
      (fun _ _ kept negotiates => consistent_of_negotiates kept negotiates) start.toKept
  · refine Along.yields KeptTwice (fun _ _ => keptTwice_step) (fun p i kept consistent => ?_) start
    have next := keptTwice_step kept consistent
    refine ⟨fun before now => (completes_rightly kept.toKept consistent before now).2, fun _ now => ?_⟩
    exact ⟨next.twice (by simp [stepAttempt_fst, now, completed]), next.unbroken⟩

/-! ### An acknowledge of another word -/

section Another

def powerUp : State true :=
  ⟨.anEnable, 0, false, true, false, 0, none, false, true, false, 0, ⟨false, false, 0, 0, false, false⟩, false⟩

theorem completes_iff_consistent_breaklink :
    Along stepAttempt Negotiates (powerUp, []) [{}, { anRxValid := true }] ↔
      Along stepAttempt (fun p i => Consistent p.1 i) (powerUp, []) [{}, { anRxValid := true }] :=
  completes_iff_consistent powerUp _ ⟨rfl, rfl, rfl, rfl, rfl, rfl, rfl, rfl, rfl, rfl⟩

def quiet : In := {}

def waiting (k : Nat) : State true :=
  { powerUp with state := .anRestart, linkTimer := BitVec.ofNat _ k, anTxEn := true }

theorem waiting_step (k : Nat) (less : k < 2048) : (waiting k).step quiet = waiting (k + 1) := by
  have low : (BitVec.ofNat 12 k).msb = false := by
    rw [BitVec.msb_eq_decide, BitVec.toNat_ofNat]
    simp
    omega
  have expired : (waiting k).linkTimerExpired = false := by
    rw [State.linkTimerExpired, show (waiting k).linkTimer.msb = false from low]
    rfl
  have next : (waiting k).linkTimer + 1 = (waiting (k + 1)).linkTimer := (BitVec.ofNat_add _ _).symm
  have beside : (waiting k).beside quiet =
      { waiting k with
        linkTimer := if (waiting k).linkTimerExpired then (waiting k).linkTimer else (waiting k).linkTimer + 1 } :=
          rfl
  have fsm : (waiting k).step quiet =
      { (waiting k).beside quiet with
        linkTimerRestart := false
        state := if (waiting k).linkTimerExpired then .anAbilityDetect else .anRestart } := rfl
  rw [fsm, beside, expired, next]
  rfl

theorem waiting_run (k : Nat) (within : k ≤ 2048) :
    ∃ log, run stepAttempt (powerUp, []) (List.replicate (2 + k) quiet) = (waiting k, log) := by
  induction k with
  | zero => exact ⟨_, rfl⟩
  | succ k ih =>
      obtain ⟨log, reached⟩ := ih (by omega)
      refine ⟨log ++ [(.anRestart, quiet)], ?_⟩
      rw [← Nat.add_assoc, List.replicate_succ', run_append, reached, run_cons, run_nil, stepAttempt,
        waiting_step k (by omega)]
      rfl

def word₁ : In := { anRxVal := 0x01a0, anRxValid := true }

/-- The word 0020 with the acknowledge bit. -/
def word₂ : In := { anRxVal := 0x4020, anRxValid := true }

theorem completes_on_another : AfterReset powerUp ∧
    ¬Along stepAttempt Negotiates (powerUp, []) (List.replicate (2 + 2048) quiet ++ [quiet, word₁, word₁, word₂]) :=
      by
  refine ⟨⟨rfl, rfl, rfl, rfl, rfl, rfl, rfl, rfl, rfl, rfl⟩, fun along => ?_⟩
  obtain ⟨log, reached⟩ := waiting_run 2048 le_rfl
  rw [along_append, reached] at along
  obtain ⟨-, -, -, -, negotiates, -⟩ := along
  rw [stepAttempt_pair (s := waiting 2048) (i := quiet) (by decide),
    stepAttempt_pair (s := (waiting 2048).step quiet) (i := word₁) (by decide),
    stepAttempt_pair (s := ((waiting 2048).step quiet).step word₁) (i := word₁) (by decide)] at negotiates
  have before : ((((waiting 2048).step quiet).step word₁).step word₁).state ≠ .anCompleteAcknowledge := by decide
  have now : (((((waiting 2048).step quiet).step word₁).step word₁).step word₂).state = .anCompleteAcknowledge := by
    decide
  obtain ⟨-, w, latched, agrees⟩ := negotiates.completes before now
  rw [latched_quiet rfl, latched_word rfl, Option.some_inj] at latched
  have differs : agree word₁.anRxVal word₂.anRxVal = false := by decide
  rw [← latched, differs] at agrees
  exact Bool.false_ne_true agrees

end Another

end WrCores.Endpoint.Autonegotiation
