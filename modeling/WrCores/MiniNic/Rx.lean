import WrCores.Clocked.Run
import WrCores.Fabric.Pkg
import WrCores.MiniNic.Tx

/-!
The receive path of wr_mini_nic.vhd: `p_rx_gen_ack` and the RX FSM in front of the show-ahead
FIFO. Of the FIFO there are its words, the `full` flag of its pointers and the registered
`empty` flag; it holds `capacity` words, one less than its pointers count, and is almost full
from `half` words on.
-/

namespace WrCores.MiniNic

open Clocked
open Fabric (SourceOut Word)

inductive RxState where
  | waitFrame
  | frame
  | full
  deriving DecidableEq, Repr

structure RxIn where
  snk : SourceOut := ⟨0, 0, false, false, true, 0b11⟩
  mcrRxEn : Bool := true
  rxFifoRd : Bool := false
  rstN : Bool := true
  deriving DecidableEq, Repr

structure MinicRx where
  fifo : List FifoWord := []
  rxFifoEmpty : Bool := true
  snkCycD0 : Bool := false
  snkAck : Bool := false
  snkStall : Bool := false
  rxFifoWe : Bool := false
  rxFifoD : FifoWord := ⟨0, 0⟩
  mcrRxReady : Bool := false
  mcrRxError : Bool := false
  nrxNewpacket : Bool := false
  nrxState : RxState := .waitFrame
  deriving DecidableEq, Repr

/-- The parameters of a receiver. -/
structure RxParams where
  littleEndian : Bool
  capacity : Nat
  half : Nat

/-- A word of the fabric in the FIFO. -/
def inFifo (littleEndian : Bool) (w : Word) : FifoWord :=
  ⟨if w.sel == 0b11 then w.adr else cWrfBytesel, fSwapEndian16 littleEndian w.dat⟩

namespace MinicRx

variable (p : RxParams)

def rxFifoFull (s : MinicRx) : Bool := s.fifo.length == p.capacity

def rxFifoAfull (s : MinicRx) : Bool := p.half ≤ s.fifo.length

def nrxSof (s : MinicRx) (i : RxIn) : Bool := !s.snkCycD0 && i.snk.cyc

def nrxEof (s : MinicRx) (i : RxIn) : Bool := s.snkCycD0 && !i.snk.cyc

def waitStep (s : MinicRx) (i : RxIn) : MinicRx :=
  { s with
    rxFifoWe := false, rxFifoD := ⟨0, 0⟩, mcrRxError := false, nrxNewpacket := false
    snkStall := i.mcrRxEn && !s.nrxSof i
    nrxState := if i.mcrRxEn && s.nrxSof i && !s.rxFifoFull p then .frame else .waitFrame }

def frameStep (s : MinicRx) (i : RxIn) : MinicRx :=
  let whole := i.snk.stb && i.snk.sel == 0b11
  let half := i.snk.stb && i.snk.sel == 0b10
  let written := { s with
    snkStall := false, rxFifoWe := whole || half
    rxFifoD := if whole || half then inFifo p.littleEndian i.snk.word else ⟨0, 0⟩ }
  let ends := !i.mcrRxEn || s.nrxEof i
  if ends && !s.rxFifoFull p then
    { written with mcrRxReady := true, mcrRxError := false, nrxNewpacket := true, nrxState := .waitFrame }
  else if ends && s.rxFifoFull p then
    { written with mcrRxReady := true, mcrRxError := false, nrxNewpacket := true, nrxState := .full }
  else if s.rxFifoFull p then
    { written with mcrRxReady := true, mcrRxError := true, nrxNewpacket := true, nrxState := .full }
  else { written with mcrRxReady := false, mcrRxError := false, nrxNewpacket := false }

def fullStep (s : MinicRx) (i : RxIn) : MinicRx :=
  { s with
    snkStall := false, rxFifoWe := false, rxFifoD := ⟨0, 0⟩, nrxNewpacket := false
    nrxState := if !i.snk.cyc && !s.rxFifoAfull p then .waitFrame else .full }

/-- The process of the RX FSM. -/
def fsmStep (s : MinicRx) (i : RxIn) : MinicRx :=
  if !i.rstN then
    { s with
      snkCycD0 := false, rxFifoWe := false, rxFifoD := ⟨0, 0⟩, snkStall := false, mcrRxReady := false
      nrxNewpacket := false, nrxState := .waitFrame }
  else
    let next :=
      match s.nrxState with
      | .waitFrame => s.waitStep p i
      | .frame => s.frameStep p i
      | .full => s.fullStep p i
    { next with snkCycD0 := i.snk.cyc }

def rdInt (s : MinicRx) (i : RxIn) : Bool := i.rxFifoRd && !s.rxFifoEmpty

/-- What the FIFO takes at an edge. -/
def appended (s : MinicRx) : List FifoWord := if s.rxFifoWe && !s.rxFifoFull p then [s.rxFifoD] else []

def step (s : MinicRx) (i : RxIn) : MinicRx :=
  { s.fsmStep p i with
    fifo := if !i.rstN then [] else (if s.rdInt i then s.fifo.tail else s.fifo) ++ s.appended p
    rxFifoEmpty := s.fifo.isEmpty || (s.fifo.length == 1 && s.rdInt i)
    snkAck := i.rstN && i.snk.cyc && i.snk.stb && !s.snkStall }

/-! ### What an observer sees -/

/-- The words the fabric handed over in the current frame, those that reached the FIFO since the
last report, and whether the frame has been reported as broken. -/
structure Observer where
  taken : List Word := []
  stored : List FifoWord := []
  cut : Bool := false
  deriving DecidableEq, Repr

/-- A report comes with a pulse of `nrx_newpacket`. -/
def reports (s : MinicRx) (i : RxIn) : Bool := (s.step p i).nrxNewpacket

/-- The observer behind an edge, before it forgets what was reported. -/
def observe (s : MinicRx) (o : Observer) (i : RxIn) : Observer where
  taken := (if s.nrxSof i then [] else o.taken) ++ Fabric.taken i.snk s.snkStall
  stored := o.stored ++ s.appended p
  cut := (!s.nrxSof i && o.cut) || (s.reports p i && (s.step p i).mcrRxError)

def watch (so : MinicRx × Observer) (i : RxIn) : MinicRx × Observer :=
  let o := so.1.observe p so.2 i
  (so.1.step p i, if so.1.reports p i then { o with stored := [] } else o)

/-- A frame that is reported without an error is in the FIFO, and one that is not there as a
whole has been reported with an error by its end. -/
def Sound (so : MinicRx × Observer) (i : RxIn) : Prop :=
  let o := so.1.observe p so.2 i
  (so.1.reports p i = true → (so.1.step p i).mcrRxReady = true ∧
    ((so.1.step p i).mcrRxError = false → o.stored = o.taken.map (inFifo p.littleEndian))) ∧
  (so.1.nrxEof i = true → o.cut = true ∨ o.stored = o.taken.map (inFifo p.littleEndian))

/-- The fabric side keeps to the pipelined rule, and the receiver is enabled. -/
structure Legal (i : RxIn) : Prop where
  rstN : i.rstN = true
  enabled : i.mcrRxEn = true
  stb : i.snk.stb = true → i.snk.cyc = true

/-- No word is handed over outside of a frame that is being received, or with a byte select the
FIFO has no word for; no frame starts while the FIFO is recovering; and the write that is on its
way at the end of a frame meets room, while one left over from a frame that was cut meets none. -/
structure Clear (s : MinicRx) (i : RxIn) : Prop where
  waiting : s.nrxState = .waitFrame → Fabric.taken i.snk s.snkStall = []
  select : s.nrxState = .frame → i.snk.stb = true → i.snk.sel = 0b11 ∨ i.snk.sel = 0b10
  starts : s.nrxState = .full → s.nrxSof i = false
  room : s.nrxState = .frame → s.nrxEof i = true → s.rxFifoWe = true → s.rxFifoFull p = false
  left : s.nrxState = .full → s.rxFifoWe = true → s.rxFifoFull p = true

/-- The word that is on its way into the FIFO. -/
def onItsWay (s : MinicRx) : List FifoWord := if s.rxFifoWe then [s.rxFifoD] else []

structure Follows (so : MinicRx × Observer) : Prop where
  waiting : so.1.nrxState = .waitFrame →
    so.1.rxFifoWe = false ∧ so.2.stored = [] ∧ (so.1.snkCycD0 = true → so.2.taken = [])
  frame : so.1.nrxState = .frame → so.1.snkCycD0 = true ∧ so.1.snkStall = false ∧ so.2.cut = false ∧
    so.2.stored ++ so.1.onItsWay = so.2.taken.map (inFifo p.littleEndian)
  full : so.1.nrxState = .full → so.2.stored = [] ∧ (so.1.snkCycD0 = true → so.2.cut = true)

section Edge

variable {p} {s : MinicRx} {o : Observer} {i : RxIn}
variable (legal : Legal i) (clear : Clear p s i) (follows : Follows p (s, o))
include legal clear follows

theorem wait_edge (state : s.nrxState = .waitFrame) :
    Sound p (s, o) i ∧ Follows p (watch p (s, o) i) := by
  obtain ⟨silent, none, fresh⟩ := follows.waiting state
  simp only at silent none fresh
  have unused := clear.waiting state
  have quiet : s.reports p i = false := by simp [reports, step, fsmStep, legal.rstN, state, waitStep]
  have nothing : s.appended p = [] := by simp [appended, silent]
  constructor
  · constructor
    · simp [quiet]
    · intro eof
      simp only [nrxEof, Bool.and_eq_true, Bool.not_eq_true'] at eof
      right
      simp [observe, none, nothing, unused, nrxSof, eof.1, fresh eof.1]
  · cases sof : s.nrxSof i with
    | false =>
        constructor
        · intro _
          simp [watch, quiet, step, fsmStep, legal.rstN, state, waitStep, observe, none, nothing, unused, sof]
          intro cyc
          exact fresh (by simpa [nrxSof, cyc] using sof)
        · simp [watch, step, fsmStep, legal.rstN, state, waitStep, sof]
        · simp [watch, step, fsmStep, legal.rstN, state, waitStep, sof]
    | true =>
        have begins : i.snk.cyc = true := by
          simp only [nrxSof, Bool.and_eq_true] at sof
          exact sof.2
        constructor
        · intro _
          simp [watch, quiet, step, fsmStep, legal.rstN, state, waitStep, observe, none, nothing, unused, sof]
        · intro _
          simp [watch, quiet, step, fsmStep, legal.rstN, state, waitStep, observe, none, nothing, unused, sof,
            begins, legal.enabled, onItsWay]
        · simp only [watch, step, fsmStep, legal.rstN, state, waitStep, sof]
          split_ifs <;> simp_all

theorem full_edge (state : s.nrxState = .full) : Sound p (s, o) i ∧ Follows p (watch p (s, o) i) := by
  obtain ⟨none, broken⟩ := follows.full state
  simp only at none broken
  have sof := clear.starts state
  have quiet : s.reports p i = false := by simp [reports, step, fsmStep, legal.rstN, state, fullStep]
  have nothing : s.appended p = [] := by
    cases writes : s.rxFifoWe with
    | false => simp [appended, writes]
    | true => simp [appended, clear.left state writes]
  constructor
  · constructor
    · simp [quiet]
    · intro eof
      simp only [nrxEof, Bool.and_eq_true] at eof
      left
      simp [observe, sof, broken eof.1]
  · constructor
    · simp only [watch, step, fsmStep, legal.rstN, state, fullStep]
      split_ifs <;> simp_all [observe]
    · simp only [watch, step, fsmStep, legal.rstN, state, fullStep]
      split_ifs <;> simp_all
    · intro _
      simp only [watch, quiet, observe, nothing, none, sof, List.append_nil, Bool.false_eq_true, if_false,
        true_and]
      intro cyc
      have before : s.snkCycD0 = true := by
        have now : i.snk.cyc = true := by simpa [step, fsmStep, legal.rstN] using cyc
        simpa [nrxSof, now] using sof
      simp [broken before]

omit clear follows in
theorem frame_step (state : s.nrxState = .frame) :
    (s.step p i).rxFifoWe = (i.snk.stb && i.snk.sel == 0b11 || i.snk.stb && i.snk.sel == 0b10) ∧
    (s.step p i).rxFifoD = (if i.snk.stb && i.snk.sel == 0b11 || i.snk.stb && i.snk.sel == 0b10 then
      inFifo p.littleEndian i.snk.word else ⟨0, 0⟩) ∧
    (s.step p i).snkCycD0 = i.snk.cyc ∧ (s.step p i).snkStall = false ∧
    (s.step p i).nrxState = (if s.rxFifoFull p then .full else if s.nrxEof i then .waitFrame else .frame) ∧
    (s.step p i).nrxNewpacket = (s.nrxEof i || s.rxFifoFull p) ∧
    (s.step p i).mcrRxReady = (s.nrxEof i || s.rxFifoFull p) ∧
    (s.step p i).mcrRxError = (s.rxFifoFull p && !s.nrxEof i) := by
  cases eof : s.nrxEof i <;> cases full : s.rxFifoFull p <;>
    simp [step, fsmStep, legal.rstN, legal.enabled, state, frameStep, eof, full]

/-- The word that is handed over in a cycle of a frame is on its way behind it. -/
theorem frame_writes (state : s.nrxState = .frame) (goes : i.snk.cyc = true) :
    (s.step p i).onItsWay = (Fabric.taken i.snk s.snkStall).map (inFifo p.littleEndian) := by
  have taking : s.snkStall = false := (follows.frame state).2.1
  obtain ⟨writes, word, -⟩ := frame_step (p := p) (s := s) legal state
  cases stb : i.snk.stb with
  | false => simp [onItsWay, writes, stb, Fabric.taken]
  | true =>
      rcases clear.select state stb with sel | sel <;>
        simp [onItsWay, writes, word, stb, sel, Fabric.taken, goes, taking]

theorem frame_edge (state : s.nrxState = .frame) : Sound p (s, o) i ∧ Follows p (watch p (s, o) i) := by
  obtain ⟨cycD0, taking, whole, same⟩ := follows.frame state
  simp only at cycD0 taking whole same
  obtain ⟨writes, -, cycD0', stall', state', report, ready, error⟩ := frame_step (p := p) (s := s) legal state
  have sof : s.nrxSof i = false := by simp [nrxSof, cycD0]
  cases cyc : i.snk.cyc with
  | false =>
      have eof : s.nrxEof i = true := by simp [nrxEof, cycD0, cyc]
      have stb : i.snk.stb = false := by
        cases stb : i.snk.stb with
        | false => rfl
        | true => simp [legal.stb stb] at cyc
      have appends : s.appended p = s.onItsWay := by
        cases writes : s.rxFifoWe with
        | false => simp [appended, onItsWay, writes]
        | true => simp [appended, onItsWay, writes, clear.room state eof writes]
      have seen : (s.observe p o i).stored = (s.observe p o i).taken.map (inFifo p.littleEndian) := by
        simp [observe, sof, appends, same, Fabric.taken, cyc]
      simp only [eof, Bool.true_or, if_true] at report ready state'
      constructor
      · exact ⟨fun _ => ⟨ready, fun _ => seen⟩, fun _ => .inr seen⟩
      · simp only [stb, Bool.false_and, Bool.false_or] at writes
        constructor
        · simp [watch, reports, report, writes, cycD0', cyc]
        · intro frame
          simp only [watch, state'] at frame
          split at frame <;> simp at frame
        · simp [watch, reports, report, cycD0', cyc]
  | true =>
      have eof : s.nrxEof i = false := by simp [nrxEof, cyc]
      have next := frame_writes legal clear follows state cyc
      simp only [eof, Bool.false_or, Bool.not_false, Bool.and_true, Bool.false_eq_true, if_false]
        at report ready error state'
      cases full : s.rxFifoFull p with
      | true =>
          simp only [full, if_true] at report ready error state'
          constructor
          · exact ⟨fun _ => ⟨ready, fun none => by simp [error] at none⟩, fun end_ => by simp [eof] at end_⟩
          · constructor
            · simp [watch, state']
            · simp [watch, state']
            · simp [watch, reports, report, observe, error]
      | false =>
          simp only [full, Bool.false_eq_true, if_false] at report ready error state'
          have appends : s.appended p = s.onItsWay := by simp [appended, onItsWay, full]
          constructor
          · exact ⟨fun some => by simp [reports, report] at some, fun end_ => by simp [eof] at end_⟩
          · constructor
            · simp [watch, state']
            · intro _
              refine ⟨by simp [watch, cycD0', cyc], by simp [watch, stall'], ?_, ?_⟩
              · simp [watch, reports, report, observe, whole]
              · simp [watch, reports, report, observe, sof, appends, next, same]
            · simp [watch, state']

theorem edge : Sound p (s, o) i ∧ Follows p (watch p (s, o) i) := by
  cases state : s.nrxState with
  | waitFrame => exact wait_edge legal clear follows state
  | frame => exact frame_edge legal clear follows state
  | full => exact full_edge legal clear follows state

end Edge

/-- A run of the receiver from its reset on, in which every cycle is clear. -/
theorem frames_stored (cycles : List RxIn) (legal : ∀ i ∈ cycles, Legal i)
    (clear : Along (watch p) (fun so i => Clear p so.1 i) ({}, {}) cycles) :
    Along (watch p) (Sound p) ({}, {}) cycles := by
  have start : Follows p ({}, {}) := by constructor <;> simp
  revert start clear
  generalize (({}, {}) : MinicRx × Observer) = so
  intro clear follows
  induction cycles generalizing so with
  | nil => trivial
  | cons i cycles ih =>
      obtain ⟨sound, next⟩ := edge (legal i (by simp)) clear.1 follows
      exact ⟨sound, ih (fun j member => legal j (by simp [member])) _ clear.2 next⟩

instance (s : MinicRx) (i : RxIn) : Decidable (Clear p s i) :=
  decidable_of_iff
    ((s.nrxState = .waitFrame → Fabric.taken i.snk s.snkStall = []) ∧
      (s.nrxState = .frame → i.snk.stb = true → i.snk.sel = 0b11 ∨ i.snk.sel = 0b10) ∧
      (s.nrxState = .full → s.nrxSof i = false) ∧
      (s.nrxState = .frame → s.nrxEof i = true → s.rxFifoWe = true → s.rxFifoFull p = false) ∧
      (s.nrxState = .full → s.rxFifoWe = true → s.rxFifoFull p = true))
    ⟨fun ⟨waiting, select, starts, room, left⟩ => ⟨waiting, select, starts, room, left⟩,
      fun ⟨waiting, select, starts, room, left⟩ => ⟨waiting, select, starts, room, left⟩⟩

def idle : RxIn := {}

/-- A cycle that offers a word of data. -/
def offers (dat : BitVec 16) : RxIn := { snk := ⟨0, dat, true, true, true, 0b11⟩ }

theorem idle_legal : Legal idle := ⟨rfl, rfl, by decide⟩

theorem offers_legal (dat : BitVec 16) : Legal (offers dat) := ⟨rfl, rfl, fun _ => rfl⟩

/-- Two frames with two idle cycles between them. -/
def twoApart : List RxIn :=
  [idle, offers 1, offers 1, offers 2, idle, idle, offers 3, offers 3, offers 4, idle]

theorem frames_stored_apart :
    Sound ⟨false, 7, 4⟩ (run (watch ⟨false, 7, 4⟩) ({}, {}) twoApart.dropLast) idle ∧
    (run (step ⟨false, 7, 4⟩) {} (twoApart ++ [idle])).fifo = [⟨0, 1⟩, ⟨0, 2⟩, ⟨0, 3⟩, ⟨0, 4⟩] := by
  have legal : ∀ i ∈ twoApart, Legal i := by
    simp [twoApart, idle_legal, offers_legal]
  have sound := frames_stored ⟨false, 7, 4⟩ twoApart legal (by decide)
  refine ⟨?_, by decide⟩
  have split : twoApart = twoApart.dropLast ++ [idle] := by decide
  rw [split, along_append] at sound
  exact sound.2.1

/-- Two frames with one idle cycle between them. -/
def twoTogether : List RxIn := [idle, offers 1, offers 1, offers 2, idle, offers 3, offers 4]

/-- The first word of the second frame is handed over and lost, and no error is reported. -/
theorem first_word_lost : (∀ i ∈ twoTogether ++ [idle], Legal i) ∧
    ¬ Sound ⟨false, 7, 4⟩ (run (watch ⟨false, 7, 4⟩) ({}, {}) twoTogether) idle ∧
    (run (watch ⟨false, 7, 4⟩) ({}, {}) twoTogether).2.taken = [⟨0, 3, 0b11⟩, ⟨0, 4, 0b11⟩] ∧
    (run (step ⟨false, 7, 4⟩) {} (twoTogether ++ [idle])).mcrRxReady = true ∧
    (run (step ⟨false, 7, 4⟩) {} (twoTogether ++ [idle])).mcrRxError = false ∧
    (run (step ⟨false, 7, 4⟩) {} (twoTogether ++ [idle])).fifo = [⟨0, 1⟩, ⟨0, 2⟩, ⟨0, 4⟩] := by
  refine ⟨by simp [twoTogether, idle_legal, offers_legal], ?_, by decide⟩
  rintro ⟨stored, -⟩
  have same := (stored (by decide)).2 (by decide)
  exact absurd same (by decide)

end MinicRx

end WrCores.MiniNic
