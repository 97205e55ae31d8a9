import Mathlib.Data.BitVec
import WrCores.Clocked.Run

/-!
Escape coding of the streamers: gc_escape_inserter (escape_inserter.vhd) feeding
escape_detector (escape_detector.vhd). Both compare and load the literal x"0000",
so the data path is 16 bits wide. The two are connected directly: the detector
passes its request input straight through, so both see the same downstream request.
-/

namespace WrCores.Streamers.Escape

open Clocked

inductive InserterFsm where
  | idle
  | insertEscape
  deriving DecidableEq, Repr

structure Inserter where
  state : InserterFsm
  dPrev : BitVec 16
  dReqPrev : Bool
  deriving DecidableEq, Repr

structure InserterIn where
  dI : BitVec 16
  dInsertEnableI : Bool
  dEscapeI : Bool
  dValidI : Bool
  dReqI : Bool
  deriving DecidableEq, Repr

variable (gEscapeCode : BitVec 16)

namespace Inserter

def matchEscCode (i : InserterIn) : Bool := i.dI == gEscapeCode

def dReqO (i : InserterIn) : Bool :=
  i.dReqI && !(i.dValidI && (i.dEscapeI || matchEscCode gEscapeCode i))

def dO (s : Inserter) (i : InserterIn) : BitVec 16 :=
  if s.state = .insertEscape then s.dPrev else if i.dEscapeI = false then i.dI else gEscapeCode

def dValidO (s : Inserter) (i : InserterIn) : Bool :=
  if s.state = .idle then i.dValidI else s.dReqPrev

def step (s : Inserter) (i : InserterIn) : Inserter :=
  if i.dInsertEnableI = false then { s with state := .idle, dReqPrev := false }
  else match s.state with
    | .idle =>
        -- case 1: escape the escape character sent as normal character
        if i.dI == gEscapeCode && i.dValidI && !i.dEscapeI then
          { state := .insertEscape, dPrev := 0#16, dReqPrev := i.dReqI }
        -- case 2: send an escaped character
        else if i.dEscapeI && i.dValidI then
          { state := .insertEscape, dPrev := i.dI, dReqPrev := i.dReqI }
        else { s with dReqPrev := i.dReqI }
    | .insertEscape =>
        { s with state := if s.dReqPrev then .idle else .insertEscape, dReqPrev := i.dReqI }

end Inserter

inductive DetectorFsm where
  | idle
  | checkEscape
  deriving DecidableEq, Repr

structure Detector where
  state : DetectorFsm
  deriving DecidableEq, Repr

structure DetectorIn where
  dI : BitVec 16
  dDetectEnableI : Bool
  dValidI : Bool
  deriving DecidableEq, Repr

namespace Detector

def isEscapeCode (s : Detector) (i : DetectorIn) : Bool :=
  i.dDetectEnableI && decide (s.state = .idle) && i.dValidI && i.dI == gEscapeCode

def dO (s : Detector) (i : DetectorIn) : BitVec 16 :=
  if s.state = .checkEscape ∧ i.dI = 0#16 then gEscapeCode else i.dI

def dValidO (s : Detector) (i : DetectorIn) : Bool := i.dValidI && !isEscapeCode gEscapeCode s i

def dEscapeO (s : Detector) (i : DetectorIn) : Bool := decide (s.state = .checkEscape ∧ i.dI ≠ 0#16)

def step (s : Detector) (i : DetectorIn) : Detector :=
  if i.dDetectEnableI = false then ⟨.idle⟩
  else match s.state with
    | .idle => if i.dI == gEscapeCode && i.dValidI then ⟨.checkEscape⟩ else s
    | .checkEscape => if i.dValidI then ⟨.idle⟩ else s

end Detector

/-! The pair. `asked` remembers the inserter's request of the cycle before: it is
the sender's view of the protocol, not a register of either unit. -/

structure Character where
  escape : Bool
  data : BitVec 16
  deriving DecidableEq, Repr

structure Link where
  inserter : Inserter
  detector : Detector
  asked : Bool
  deriving DecidableEq, Repr

structure LinkIn where
  valid : Bool
  character : Character
  dReqI : Bool
  deriving DecidableEq, Repr

def linkReset : Link where
  inserter := ⟨.idle, 0#16, false⟩
  detector := ⟨.idle⟩
  asked := false

def LinkIn.toInserter (i : LinkIn) : InserterIn where
  dI := i.character.data
  dInsertEnableI := true
  dEscapeI := i.character.escape
  dValidI := i.valid
  dReqI := i.dReqI

def Link.toDetector (s : Link) (i : LinkIn) : DetectorIn where
  dI := s.inserter.dO gEscapeCode i.toInserter
  dDetectEnableI := true
  dValidI := s.inserter.dValidO i.toInserter

def linkStep (s : Link) (i : LinkIn) : Link where
  inserter := s.inserter.step gEscapeCode i.toInserter
  detector := s.detector.step gEscapeCode (s.toDetector gEscapeCode i)
  asked := Inserter.dReqO gEscapeCode i.toInserter

def sent (_ : Link) (i : LinkIn) : List Character := if i.valid then [i.character] else []

def received (s : Link) (i : LinkIn) : List Character :=
  let d := s.toDetector gEscapeCode i
  if s.detector.dValidO gEscapeCode d then
    [⟨s.detector.dEscapeO d, s.detector.dO gEscapeCode d⟩]
  else []

/-- The sender's side of the contract: a character only after a request, and never
an escaped zero. -/
def Obeys (s : Link) (i : LinkIn) : Prop :=
  i.valid = true → s.asked = true ∧ (i.character.escape = true → i.character.data ≠ 0#16)

/-- A character is presented while the inserter is still busy with the second half
of the one before it. -/
def Clash (s : Link) (i : LinkIn) : Prop :=
  s.inserter.state = .insertEscape ∧ i.valid = true

instance (s : Link) (i : LinkIn) : Decidable (Clash s i) := inferInstanceAs (Decidable (_ ∧ _))

/-- The character whose second half is still to be sent. -/
def held (s : Link) : List Character :=
  if s.inserter.state = .insertEscape then
    [if s.inserter.dPrev = 0#16 then ⟨false, gEscapeCode⟩ else ⟨true, s.inserter.dPrev⟩]
  else []

/-- The two state machines are in step, and a request that reached the sender was
also seen by the inserter. -/
def InStep (s : Link) : Prop :=
  (s.detector.state = .checkEscape ↔ s.inserter.state = .insertEscape) ∧
    (s.asked = true → s.inserter.dReqPrev = true)

theorem inStep_reset : InStep linkReset := by simp [InStep, linkReset]

theorem inStep_kept (s : Link) (i : LinkIn) (inStep : InStep s) : InStep (linkStep gEscapeCode s i) := by
  obtain ⟨⟨fsm, dPrev, dReqPrev⟩, ⟨check⟩, asked⟩ := s
  obtain ⟨valid, ⟨escape, data⟩, dReqI⟩ := i
  obtain ⟨together, -⟩ := inStep
  refine ⟨?_, ?_⟩
  · cases fsm with
    | idle =>
        have idle : check = .idle := by cases check <;> simp_all
        subst idle
        by_cases same : data = gEscapeCode <;> cases valid <;> cases escape <;>
          simp [linkStep, Link.toDetector, LinkIn.toInserter, Inserter.step, Detector.step,
            Inserter.dO, Inserter.dValidO, same]
    | insertEscape =>
        have checking : check = .checkEscape := by simpa using together
        subst checking
        cases dReqPrev <;>
          simp [linkStep, Link.toDetector, LinkIn.toInserter, Inserter.step, Detector.step,
            Inserter.dO, Inserter.dValidO]
  · cases fsm <;> cases dReqI <;>
      simp [linkStep, LinkIn.toInserter, Inserter.step, Inserter.dReqO, apply_ite Inserter.dReqPrev]

/-- While the inserter is busy it gives out what it owes as soon as it was asked. -/
theorem busy_step (s : Link) (i : LinkIn) (inStep : InStep s)
    (busy : s.inserter.state = .insertEscape) :
    (s.inserter.dReqPrev = true ∧ received gEscapeCode s i = held gEscapeCode s ∧
      held gEscapeCode (linkStep gEscapeCode s i) = []) ∨
    (s.inserter.dReqPrev = false ∧ received gEscapeCode s i = [] ∧
      held gEscapeCode (linkStep gEscapeCode s i) = held gEscapeCode s) := by
  have checking := inStep.1.mpr busy
  obtain ⟨⟨fsm, dPrev, dReqPrev⟩, ⟨check⟩, asked⟩ := s
  simp only at busy checking
  subst busy checking
  cases dReqPrev
  · exact Or.inr ⟨rfl, by simp [received, Link.toDetector, Detector.dValidO, Inserter.dValidO],
      by simp [held, linkStep, LinkIn.toInserter, Inserter.step]⟩
  · refine Or.inl ⟨rfl, ?_, by simp [held, linkStep, LinkIn.toInserter, Inserter.step]⟩
    by_cases zero : dPrev = 0#16 <;>
      simp [received, held, Link.toDetector, Detector.dValidO, Detector.isEscapeCode, Detector.dO,
        Detector.dEscapeO, Inserter.dO, Inserter.dValidO, zero]

theorem free_step (s : Link) (i : LinkIn) (inStep : InStep s) (obeys : Obeys s i)
    (free : s.inserter.state = .idle) :
    held gEscapeCode s ++ sent s i =
      received gEscapeCode s i ++ held gEscapeCode (linkStep gEscapeCode s i) := by
  obtain ⟨⟨fsm, dPrev, dReqPrev⟩, ⟨check⟩, asked⟩ := s
  obtain ⟨valid, ⟨escape, data⟩, dReqI⟩ := i
  simp only at free
  subst free
  have idle : check = .idle := by
    have := inStep.1
    cases check <;> simp_all
  subst idle
  cases valid with
  | false =>
      simp [held, sent, received, linkStep, Link.toDetector, LinkIn.toInserter, Inserter.step,
        Inserter.dValidO, Detector.dValidO]
  | true =>
      cases escape with
      | true =>
          have nonzero : data ≠ 0#16 := (obeys rfl).2 rfl
          simp [held, sent, received, linkStep, Link.toDetector, LinkIn.toInserter, Inserter.step,
            Inserter.dValidO, Inserter.dO, Detector.dValidO, Detector.isEscapeCode, nonzero]
      | false =>
          by_cases same : data = gEscapeCode <;>
            simp [held, sent, received, linkStep, Link.toDetector, LinkIn.toInserter, Inserter.step,
              Inserter.dValidO, Inserter.dO, Detector.dValidO, Detector.dO, Detector.dEscapeO,
              Detector.isEscapeCode, same]

/-- Without a clash every cycle balances: what is owed and what comes in is what
goes out and what is then owed. -/
theorem link_balanced (s : Link) (i : LinkIn) (inStep : InStep s) (obeys : Obeys s i)
    (apart : ¬ Clash s i) :
    held gEscapeCode s ++ sent s i =
      received gEscapeCode s i ++ held gEscapeCode (linkStep gEscapeCode s i) := by
  cases busy : s.inserter.state with
  | idle => exact free_step gEscapeCode s i inStep obeys busy
  | insertEscape =>
      have silent : i.valid = false := by simpa [Clash, busy] using apart
      have nothing : sent s i = [] := by simp [sent, silent]
      rcases busy_step gEscapeCode s i inStep busy with ⟨-, out, rest⟩ | ⟨-, out, rest⟩ <;>
        simp [nothing, out, rest]

/-- A clash loses the character presented: the sender was asked for it while the
inserter was giving out the half it owed. -/
theorem clash_loses (s : Link) (i : LinkIn) (inStep : InStep s) (obeys : Obeys s i)
    (clash : Clash s i) :
    (received gEscapeCode s i ++ held gEscapeCode (linkStep gEscapeCode s i)).length + 1 =
      (held gEscapeCode s ++ sent s i).length := by
  obtain ⟨busy, valid⟩ := clash
  have asked := inStep.2 (obeys valid).1
  rcases busy_step gEscapeCode s i inStep busy with ⟨-, out, rest⟩ | ⟨unasked, -, -⟩
  · simp [out, rest, sent, valid]
  · simp [asked] at unasked

theorem link_length (s : Link) (inputs : List LinkIn) (inStep : InStep s)
    (obeys : Along (linkStep gEscapeCode) Obeys s inputs) :
    let kept := collect (linkStep gEscapeCode) (received gEscapeCode) s inputs ++
      held gEscapeCode (run (linkStep gEscapeCode) s inputs)
    let offered := held gEscapeCode s ++ collect (linkStep gEscapeCode) sent s inputs
    kept.length ≤ offered.length ∧
      (kept.length = offered.length → Along (linkStep gEscapeCode) (fun s i => ¬ Clash s i) s inputs) := by
  induction inputs generalizing s with
  | nil => simp
  | cons i rest ih =>
      have later := ih _ (inStep_kept gEscapeCode s i inStep) obeys.2
      by_cases clash : Clash s i
      · have lost := clash_loses gEscapeCode s i inStep obeys.1 clash
        simp only [collect_cons, run_cons, List.length_append] at later lost ⊢
        exact ⟨by omega, fun equal => by omega⟩
      · have same := congrArg List.length (link_balanced gEscapeCode s i inStep obeys.1 clash)
        simp only [collect_cons, run_cons, along_cons, List.length_append] at later same ⊢
        exact ⟨by omega, fun equal => ⟨clash, later.2 (by omega)⟩⟩

/-- The characters come out as they went in, the last one possibly still half sent,
exactly in the runs in which no character is presented while the inserter is busy
with the second half of an escaped one. -/
theorem characters_pass_iff (inputs : List LinkIn)
    (obeys : Along (linkStep gEscapeCode) Obeys linkReset inputs) :
    collect (linkStep gEscapeCode) sent linkReset inputs =
        collect (linkStep gEscapeCode) (received gEscapeCode) linkReset inputs ++
          held gEscapeCode (run (linkStep gEscapeCode) linkReset inputs) ↔
      Along (linkStep gEscapeCode) (fun s i => ¬ Clash s i) linkReset inputs := by
  have nothing : held gEscapeCode linkReset = [] := rfl
  constructor
  · intro equal
    refine (link_length gEscapeCode linkReset inputs inStep_reset obeys).2 ?_
    rw [nothing, List.nil_append, equal]
  · intro apart
    have both : Along (linkStep gEscapeCode) (fun s i => Obeys s i ∧ ¬ Clash s i) linkReset inputs :=
      obeys.and apart
    have total := both.conserves InStep (held gEscapeCode) sent (received gEscapeCode)
      (fun s i inStep _ => inStep_kept gEscapeCode s i inStep)
      (fun s i inStep ok => link_balanced gEscapeCode s i inStep ok.1 ok.2) inStep_reset
    rwa [nothing, List.nil_append] at total

/-- The escape code the streamers use. -/
def cEscape : BitVec 16 := 0xcafe

/-- An escaped 1 meets a low request; the next character comes as soon as the
request is back. -/
def lateRequest : List LinkIn :=
  [⟨false, ⟨false, 0⟩, true⟩, ⟨true, ⟨true, 1⟩, false⟩, ⟨false, ⟨false, 0⟩, true⟩,
    ⟨true, ⟨false, 5⟩, true⟩, ⟨false, ⟨false, 0⟩, true⟩]

instance (s : Link) (i : LinkIn) : Decidable (Obeys s i) := inferInstanceAs (Decidable (_ → _))

theorem character_lost :
    Along (linkStep cEscape) Obeys linkReset lateRequest ∧
      collect (linkStep cEscape) sent linkReset lateRequest = [⟨true, 1⟩, ⟨false, 5⟩] ∧
      collect (linkStep cEscape) (received cEscape) linkReset lateRequest = [⟨true, 1⟩] ∧
      held cEscape (run (linkStep cEscape) linkReset lateRequest) = [] := by
  decide

/-- The same characters with the request high throughout. -/
def steadyRequest : List LinkIn :=
  [⟨false, ⟨false, 0⟩, true⟩, ⟨true, ⟨true, 1⟩, true⟩, ⟨false, ⟨false, 0⟩, true⟩]

theorem characters_pass_iff_steady :
    collect (linkStep cEscape) sent linkReset steadyRequest =
        collect (linkStep cEscape) (received cEscape) linkReset steadyRequest ++
          held cEscape (run (linkStep cEscape) linkReset steadyRequest) ↔
      Along (linkStep cEscape) (fun s i => ¬ Clash s i) linkReset steadyRequest :=
  characters_pass_iff cEscape steadyRequest (by decide)

end WrCores.Streamers.Escape
