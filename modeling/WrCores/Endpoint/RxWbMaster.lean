import Mathlib.Data.List.Forall2
import Mathlib.Tactic
import WrCores.Clocked.Run
import WrCores.Endpoint.Pkg
import WrCores.Fabric.Pkg

/-!
ep_rx_wb_master.vhd: the frames of the internal fabric go out as Wishbone cycles. One register holds the word on the bus,
and one more the word that was under way when the slave stalled. `snk_dreq_o` is answered one cycle later.
-/

namespace WrCores.Endpoint.RxWbMaster

open Clocked Fabric

/-- `t_state`. -/
inductive Phase where
  | idle
  | data
  | flushStall
  | finishCycle
  | throwErr
  deriving DecidableEq, Repr

structure Generics where
  gIgnoreAck : Bool
  gCycOnStall : Bool
  deriving DecidableEq, Repr

structure In where
  snkFab : InternalFabric := {}
  srcWb : SourceIn := ⟨false, false, false, false⟩
  deriving DecidableEq, Repr

structure State where
  state : Phase
  ackCount : BitVec 4
  srcOut : SourceOut
  tmpSel : Bool
  tmpDat : BitVec 16
  tmpAdr : BitVec 2
  enterIdle : Bool
  sofReg : Bool
  stat : StatusReg
  deriving DecidableEq, Repr

/-- `dat`, `sel` and the word behind them have no reset, nor has the variable `stat`. -/
structure AfterReset (s : State) : Prop where
  state : s.state = .idle
  ackCount : s.ackCount = 0
  stb : s.srcOut.stb = false
  we : s.srcOut.we = true
  adr : s.srcOut.adr = cWrfData
  cyc : s.srcOut.cyc = false
  enterIdle : s.enterIdle = true
  sofReg : s.sofReg = false
  stat : s.stat = {} ∨ s.stat = { error := true }

namespace State

variable (g : Generics) (s : State) (i : In)

def snkDreq : Bool :=
  let runs := !i.srcWb.stall && s.state != .finishCycle && s.state != .throwErr &&
    !i.snkFab.eof && !i.snkFab.error
  if g.gCycOnStall then (runs && !i.snkFab.sof && !s.enterIdle) || s.state == .idle else runs

/-- `p_count_acks`. -/
def nextAckCount : BitVec 4 :=
  let takes := s.srcOut.stb && !i.srcWb.stall
  if !s.srcOut.cyc then 0
  else if takes && !i.srcWb.ack then s.ackCount + 1
  else if i.srcWb.ack && !takes then s.ackCount - 1
  else s.ackCount

def fabWord (fab : InternalFabric) : Fabric.Word :=
  ⟨fab.addr, fab.data, BitVec.ofBool true ++ BitVec.ofBool !fab.bytesel⟩

def tmpWord : Fabric.Word := ⟨s.tmpAdr, s.tmpDat, BitVec.ofBool true ++ BitVec.ofBool !s.tmpSel⟩

/-- A word on the bus. -/
def shows (w : Fabric.Word) (stb : Bool) : SourceOut :=
  { s.srcOut with adr := w.adr, dat := w.dat, sel := w.sel, stb }

/-- An error of the slave ends the cycle. -/
def breaks : State :=
  { s with state := .idle, enterIdle := true, srcOut := { s.srcOut with cyc := false, stb := false } }

def idleStep : State :=
  let s := { s with enterIdle := false, srcOut := { s.srcOut with adr := i.snkFab.addr, dat := i.snkFab.data } }
  if (i.snkFab.sof || s.sofReg) && !i.srcWb.err then
    { s with srcOut := { s.srcOut with cyc := true }, state := .data }
  else s

def dataStep : State :=
  let fab := i.snkFab
  let next := { s with
    sofReg := false
    srcOut := if i.srcWb.stall then s.srcOut else s.shows (fabWord fab) fab.dvalid
    tmpAdr := fab.addr
    tmpDat := fab.data
    tmpSel := fab.bytesel }
  let next :=
    if i.srcWb.err then next.breaks
    else if fab.error then { next with state := .throwErr }
    else if i.srcWb.stall && fab.dvalid then { next with state := .flushStall }
    else next
  if fab.eof then { next with state := .finishCycle } else next

def flushStallStep : State :=
  if i.srcWb.err then s.breaks
  else if !i.srcWb.stall then { s with srcOut := s.shows s.tmpWord true, state := .data }
  else s

def throwErrStep : State :=
  let next := { s with sofReg := i.snkFab.sof || s.sofReg }
  if i.srcWb.err then next.breaks
  else if !i.srcWb.stall then
    let stat := { s.stat with error := true }
    { next with
      stat
      srcOut := s.shows ⟨cWrfStatus, fMarshallWrfStatus stat, s.srcOut.sel⟩ true
      state := .finishCycle }
  else next

def finishCycleStep : State :=
  let next := { s with
    sofReg := i.snkFab.sof || s.sofReg
    srcOut := { s.srcOut with stb := s.srcOut.stb && i.srcWb.stall } }
  if (s.ackCount == 0 || g.gIgnoreAck) && !s.srcOut.stb then
    { next with state := .idle, enterIdle := true, srcOut := { next.srcOut with cyc := false } }
  else next

def step : State :=
  let next := match s.state with
    | .idle => s.idleStep i
    | .data => s.dataStep i
    | .flushStall => s.flushStallStep i
    | .throwErr => s.throwErrStep i
    | .finishCycle => s.finishCycleStep g i
  { next with ackCount := s.nextAckCount i }

end State

/-! ### The frames that have come and the cycles that were shown -/

/-- `broken` if it ended with an error. -/
structure Frame where
  words : List Fabric.Word
  broken : Bool
  deriving DecidableEq, Repr

def statusWord (sel : BitVec 2) : Fabric.Word := ⟨cWrfStatus, fMarshallWrfStatus { error := true }, sel⟩

/-- What a frame looks like on the bus. -/
def Frame.Shown (f : Frame) (words : List Fabric.Word) : Prop :=
  if f.broken then ∃ sel, words = f.words ++ [statusWord sel] else words = f.words

/-- The frames that have ended and the words of the one that is coming; whether `snk_dreq_o` was up in the cycle before;
the words of the cycles that have ended and of the one that is going on. -/
structure Book where
  done : List Frame := []
  coming : Option (List Fabric.Word) := none
  asked : Bool := false
  shown : List (List Fabric.Word) := []
  cycle : Option (List Fabric.Word) := none
  deriving DecidableEq, Repr

def Book.next (g : Generics) (b : Book) (s : State) (i : In) : Book where
  done := if i.snkFab.eof || i.snkFab.error then b.done ++ [⟨b.coming.getD [], i.snkFab.error⟩] else b.done
  coming :=
    if i.snkFab.sof then some []
    else if i.snkFab.dvalid then b.coming.map (· ++ [State.fabWord i.snkFab])
    else if i.snkFab.eof || i.snkFab.error then none
    else b.coming
  asked := s.snkDreq g i
  shown := if s.srcOut.cyc then b.shown else b.shown ++ b.cycle.toList
  cycle := if s.srcOut.cyc then some (b.cycle.getD [] ++ taken s.srcOut i.srcWb.stall) else none

def stepBook (g : Generics) (p : State × Book) (i : In) : State × Book := (p.1.step g i, p.2.next g p.1 i)

/-- One event at a time, and only behind `snk_dreq_o`: sof, words, then eof or error. The slave has no errors. -/
structure Respects (b : Book) (i : In) : Prop where
  sof : i.snkFab.sof = true → b.asked = true ∧ b.coming = none ∧
    i.snkFab.dvalid = false ∧ i.snkFab.eof = false ∧ i.snkFab.error = false
  word : i.snkFab.dvalid = true → b.asked = true ∧ b.coming.isSome = true ∧ i.snkFab.eof = false ∧ i.snkFab.error =
    false
  eof : i.snkFab.eof = true → b.asked = true ∧ b.coming.isSome = true ∧ i.snkFab.error = false
  error : i.snkFab.error = true → b.asked = true ∧ b.coming.isSome = true
  noErr : i.srcWb.err = false

instance (b : Book) (i : In) : Decidable (Respects b i) :=
  decidable_of_iff (_ ∧ _ ∧ _ ∧ _ ∧ _)
    ⟨fun ⟨a, b, c, d, e⟩ => ⟨a, b, c, d, e⟩, fun ⟨a, b, c, d, e⟩ => ⟨a, b, c, d, e⟩⟩

/-! ### What the machine owes -/

/-- The word on the bus, if any. -/
def pending (s : State) : List Fabric.Word := if s.srcOut.stb then [s.srcOut.word] else []

def AllShown (done : List Frame) (shown : List (List Fabric.Word)) : Prop := List.Forall₂ Frame.Shown done shown

/-- Between two frames the last cycle may just have ended. -/
structure Rests (s : State) (b : Book) : Prop where
  cyc : s.srcOut.cyc = false
  stb : s.srcOut.stb = false
  coming : b.coming = none
  all : AllShown b.done (b.shown ++ b.cycle.toList)

structure Sends (s : State) (b : Book) (ws : List Fabric.Word) : Prop where
  cyc : s.srcOut.cyc = true
  coming : b.coming = some ws
  words : b.cycle.getD [] ++ pending s = ws
  all : AllShown b.done b.shown

structure Flushes (s : State) (b : Book) (ws cur : List Fabric.Word) : Prop where
  cyc : s.srcOut.cyc = true
  asked : b.asked = false
  coming : b.coming = some ws
  cycle : b.cycle = some cur
  words : cur ++ pending s ++ [s.tmpWord] = ws
  all : AllShown b.done b.shown

structure Throws (s : State) (b : Book) (before : List Frame) (ws cur : List Fabric.Word) : Prop where
  cyc : s.srcOut.cyc = true
  asked : b.asked = false
  coming : b.coming = none
  done : b.done = before ++ [⟨ws, true⟩]
  cycle : b.cycle = some cur
  words : cur ++ pending s = ws
  all : AllShown before b.shown

structure Finishes (s : State) (b : Book) (before : List Frame) (f : Frame) (cur : List Fabric.Word) : Prop where
  cyc : s.srcOut.cyc = true
  asked : b.asked = false
  coming : b.coming = none
  done : b.done = before ++ [f]
  cycle : b.cycle = some cur
  words : f.Shown (cur ++ pending s)
  all : AllShown before b.shown

def Owes (s : State) (b : Book) : Prop :=
  match s.state with
  | .idle => Rests s b
  | .data => ∃ ws, Sends s b ws
  | .flushStall => ∃ ws cur, Flushes s b ws cur
  | .throwErr => ∃ before ws cur, Throws s b before ws cur
  | .finishCycle => ∃ before f cur, Finishes s b before f cur

/-- `sof_reg` is for a source that does not wait for `snk_dreq_o`. -/
structure Kept (s : State) (b : Book) : Prop where
  sofReg : s.sofReg = false
  stat : s.stat = {} ∨ s.stat = { error := true }
  owes : Owes s b

section Edge

variable {g : Generics} {s : State} {b : Book} {i : In} {ws cur : List Fabric.Word} {before : List Frame} {f : Frame}

structure Quiet (fab : InternalFabric) : Prop where
  sof : fab.sof = false
  dvalid : fab.dvalid = false
  eof : fab.eof = false
  error : fab.error = false

theorem Respects.quiet (respects : Respects b i) (asked : b.asked = false) : Quiet i.snkFab := by
  refine ⟨?_, ?_, ?_, ?_⟩ <;> by_contra event <;> rw [Bool.not_eq_false] at event
  · exact Bool.false_ne_true (asked.symm.trans (respects.sof event).1)
  · exact Bool.false_ne_true (asked.symm.trans (respects.word event).1)
  · exact Bool.false_ne_true (asked.symm.trans (respects.eof event).1)
  · exact Bool.false_ne_true (asked.symm.trans (respects.error event).1)

theorem Quiet.done (quiet : Quiet i.snkFab) : (b.next g s i).done = b.done := by
  simp [Book.next, quiet.eof, quiet.error]

theorem Quiet.coming (quiet : Quiet i.snkFab) : (b.next g s i).coming = b.coming := by
  simp [Book.next, quiet.sof, quiet.dvalid, quiet.eof, quiet.error]

theorem next_shown (cyc : s.srcOut.cyc = true) : (b.next g s i).shown = b.shown := by simp [Book.next, cyc]

theorem next_cycle (cyc : s.srcOut.cyc = true) :
    (b.next g s i).cycle = some (b.cycle.getD [] ++ taken s.srcOut i.srcWb.stall) := by
  simp [Book.next, cyc]

/-- A word is taken, or it stays. -/
theorem taken_pending (cyc : s.srcOut.cyc = true) (stall : Bool) :
    taken s.srcOut stall ++ (if stall then pending s else []) = pending s := by
  cases stall <;> cases stb : s.srcOut.stb <;> simp [taken, pending, cyc, stb]

theorem taken_stall : taken s.srcOut true = [] := by simp [taken]

theorem taken_free (cyc : s.srcOut.cyc = true) : taken s.srcOut false = pending s := by
  cases stb : s.srcOut.stb <;> simp [taken, pending, cyc, stb]

theorem dreq_stall (busy : s.state ≠ .idle) (stall : i.srcWb.stall = true) : s.snkDreq g i = false := by
  simp [State.snkDreq, stall, busy]

theorem dreq_ends (busy : s.state ≠ .idle) (ends : i.snkFab.eof = true ∨ i.snkFab.error = true) :
    s.snkDreq g i = false := by
  rcases ends with ends | ends <;> simp [State.snkDreq, ends, busy]

theorem dreq_closed (closed : s.state = .finishCycle ∨ s.state = .throwErr) : s.snkDreq g i = false := by
  rcases closed with closed | closed <;> simp [State.snkDreq, closed]

/-- Nothing but a frame's start is heard between two frames. -/
theorem Respects.none_coming (respects : Respects b i) (coming : b.coming = none) :
    i.snkFab.dvalid = false ∧ i.snkFab.eof = false ∧ i.snkFab.error = false := by
  refine ⟨?_, ?_, ?_⟩ <;> by_contra event <;> rw [Bool.not_eq_false] at event
  · simpa [coming] using (respects.word event).2.1
  · simpa [coming] using (respects.eof event).2.1
  · simpa [coming] using (respects.error event).2

theorem rests_step (rests : Rests s b) (state : s.state = .idle) (sofReg : s.sofReg = false)
    (respects : Respects b i) :
    Owes (s.step g i) (b.next g s i) := by
  obtain ⟨word, eof, error⟩ := respects.none_coming rests.coming
  have done : (b.next g s i).done = b.done := by simp [Book.next, eof, error]
  have shown : (b.next g s i).shown = b.shown ++ b.cycle.toList := by simp [Book.next, rests.cyc]
  have cycle : (b.next g s i).cycle = none := by simp [Book.next, rests.cyc]
  cases sof : i.snkFab.sof with
  | true =>
      have next : (s.step g i).state = .data := by simp [State.step, State.idleStep, state, sof, respects.noErr]
      simp only [Owes, next]
      refine ⟨[], ?_, by simp [Book.next, sof], ?_, by rw [done, shown]; exact rests.all⟩
      · simp [State.step, State.idleStep, state, sof, respects.noErr]
      · rw [cycle]
        simp [pending, State.step, State.idleStep, state, sof, respects.noErr, rests.stb]
  | false =>
      have next : (s.step g i).state = .idle := by simp [State.step, State.idleStep, state, sof, sofReg]
      simp only [Owes, next]
      refine ⟨?_, ?_, ?_, ?_⟩
      · simp [State.step, State.idleStep, state, sof, sofReg, rests.cyc]
      · simp [State.step, State.idleStep, state, sof, sofReg, rests.stb]
      · simp [Book.next, sof, word, eof, error, rests.coming]
      · rw [done, shown, cycle]
        simpa using rests.all

theorem data_state (state : s.state = .data) (err : i.srcWb.err = false) : (s.step g i).state =
    if i.snkFab.eof then .finishCycle
    else if i.snkFab.error then .throwErr
    else if i.srcWb.stall && i.snkFab.dvalid then .flushStall
    else .data := by
  simp only [State.step, State.dataStep, state, err]
  split_ifs <;> simp_all

theorem data_srcOut (state : s.state = .data) (err : i.srcWb.err = false) : (s.step g i).srcOut =
    if i.srcWb.stall then s.srcOut else s.shows (State.fabWord i.snkFab) i.snkFab.dvalid := by
  simp only [State.step, State.dataStep, state, err]
  split_ifs <;> simp_all

theorem data_tmpWord (state : s.state = .data) (err : i.srcWb.err = false) :
    (s.step g i).tmpWord = State.fabWord i.snkFab := by
  simp only [State.step, State.dataStep, state, err]
  split_ifs <;> simp_all [State.tmpWord, State.fabWord]

theorem data_cyc (state : s.state = .data) (err : i.srcWb.err = false) (cyc : s.srcOut.cyc = true) :
    (s.step g i).srcOut.cyc = true := by
  rw [data_srcOut state err]
  split
  · exact cyc
  · exact cyc

/-- Behind a cycle of `DATA` the word on the bus is the old one where the slave stalls, else what came. -/
theorem data_pending (state : s.state = .data) (err : i.srcWb.err = false) : pending (s.step g i) =
    if i.srcWb.stall then pending s else if i.snkFab.dvalid then [State.fabWord i.snkFab] else [] := by
  rw [pending, data_srcOut state err]
  cases i.srcWb.stall with
  | true => rfl
  | false => cases i.snkFab.dvalid <;> rfl

theorem sends_step (sends : Sends s b ws) (state : s.state = .data) (respects : Respects b i) :
    Owes (s.step g i) (b.next g s i) := by
  have busy : s.state ≠ .idle := by simp [state]
  have err := respects.noErr
  have next := data_state (g := g) state err
  have cyc := data_cyc (g := g) state err sends.cyc
  have now := data_pending (g := g) state err
  have shown : (b.next g s i).shown = b.shown := next_shown sends.cyc
  have cycle : (b.next g s i).cycle = some (b.cycle.getD [] ++ taken s.srcOut i.srcWb.stall) := next_cycle sends.cyc
  have sof : i.snkFab.sof = false := by
    by_contra event
    rw [Bool.not_eq_false] at event
    simpa [sends.coming] using (respects.sof event).2.1
  -- without a word, what is on the bus is taken or stays
  have quiet : i.snkFab.dvalid = false →
      b.cycle.getD [] ++ taken s.srcOut i.srcWb.stall ++ pending (s.step g i) = ws := by
    intro none
    rw [now, none, if_neg Bool.false_ne_true, List.append_assoc, taken_pending sends.cyc]
    exact sends.words
  cases eof : i.snkFab.eof with
  | true =>
      have word : i.snkFab.dvalid = false := by
        by_contra event
        rw [Bool.not_eq_false] at event
        simpa [eof] using (respects.word event).2.2.1
      have error := (respects.eof eof).2.2
      rw [eof, if_pos rfl] at next
      simp only [Owes, next]
      refine ⟨b.done, ⟨ws, false⟩, _, cyc, dreq_ends busy (.inl eof), ?_, ?_, cycle, (quiet word), ?_⟩
      · simp [Book.next, sof, word, eof]
      · simp [Book.next, eof, error, sends.coming]
      · rw [shown]
        exact sends.all
  | false =>
      cases error : i.snkFab.error with
      | true =>
          have word : i.snkFab.dvalid = false := by
            by_contra event
            rw [Bool.not_eq_false] at event
            simpa [error] using (respects.word event).2.2.2
          rw [eof, error] at next
          simp only [Owes, next]
          refine ⟨b.done, ws, _, cyc, dreq_ends busy (.inr error), ?_, ?_, cycle, quiet word, ?_⟩
          · simp [Book.next, sof, word, error]
          · simp [Book.next, error, sends.coming]
          · rw [shown]
            exact sends.all
      | false =>
          have done : (b.next g s i).done = b.done := by simp [Book.next, eof, error]
          rw [eof, error, if_neg Bool.false_ne_true, if_neg Bool.false_ne_true] at next
          cases word : i.snkFab.dvalid with
          | false =>
              rw [word, Bool.and_false, if_neg Bool.false_ne_true] at next
              simp only [Owes, next]
              refine ⟨ws, cyc, ?_, ?_, by rw [done, shown]; exact sends.all⟩
              · simp [Book.next, sof, word, eof, error, sends.coming]
              · rw [cycle]
                exact quiet word
          | true =>
              have coming : (b.next g s i).coming = some (ws ++ [State.fabWord i.snkFab]) := by
                simp [Book.next, sof, word, sends.coming]
              cases stall : i.srcWb.stall with
              | true =>
                  rw [word, stall, Bool.and_self, if_pos rfl] at next
                  simp only [Owes, next]
                  refine ⟨_, _, cyc, dreq_stall busy stall, coming, cycle, ?_, by rw [done, shown]; exact sends.all⟩
                  rw [data_tmpWord state err, now, stall, if_pos rfl, taken_stall, List.append_nil, sends.words]
              | false =>
                  rw [word, stall, Bool.false_and, if_neg Bool.false_ne_true] at next
                  simp only [Owes, next]
                  refine ⟨_, cyc, coming, ?_, by rw [done, shown]; exact sends.all⟩
                  rw [cycle, now, stall, word, taken_free sends.cyc, Option.getD_some, sends.words]
                  rfl

theorem flushes_step (flushes : Flushes s b ws cur) (state : s.state = .flushStall) (respects : Respects b i) :
    Owes (s.step g i) (b.next g s i) := by
  have quiet := respects.quiet flushes.asked
  have busy : s.state ≠ .idle := by simp [state]
  have err := respects.noErr
  have words := flushes.words
  cases stall : i.srcWb.stall with
  | true =>
      have next : (s.step g i).state = .flushStall := by simp [State.step, State.flushStallStep, state, err, stall]
      simp only [Owes, next]
      refine ⟨ws, cur, ?_, dreq_stall busy stall, ?_, ?_, ?_, ?_⟩
      · simp [State.step, State.flushStallStep, state, err, stall, flushes.cyc]
      · rw [quiet.coming, flushes.coming]
      · rw [next_cycle flushes.cyc, flushes.cycle, stall, taken_stall]
        simp
      · simpa [pending, State.tmpWord, State.step, State.flushStallStep, state, err, stall] using words
      · rw [quiet.done, next_shown flushes.cyc]
        exact flushes.all
  | false =>
      have next : (s.step g i).state = .data := by simp [State.step, State.flushStallStep, state, err, stall]
      simp only [Owes, next]
      refine ⟨ws, ?_, ?_, ?_, ?_⟩
      · simp [State.step, State.flushStallStep, state, err, stall, State.shows, flushes.cyc]
      · rw [quiet.coming, flushes.coming]
      · rw [next_cycle flushes.cyc, flushes.cycle, stall, taken_free flushes.cyc]
        simpa [pending, State.step, State.flushStallStep, state, err, stall, State.shows, SourceOut.word] using words
      · rw [quiet.done, next_shown flushes.cyc]
        exact flushes.all

theorem throws_step (throws : Throws s b before ws cur) (state : s.state = .throwErr)
    (stat : s.stat = {} ∨ s.stat = { error := true }) (respects : Respects b i) :
    Owes (s.step g i) (b.next g s i) := by
  have quiet := respects.quiet throws.asked
  have status : fMarshallWrfStatus { s.stat with error := true } = fMarshallWrfStatus { error := true } := by
    rcases stat with stat | stat <;> rw [stat]
  have err := respects.noErr
  have words := throws.words
  have dreq : s.snkDreq g i = false := dreq_closed (.inr state)
  cases stall : i.srcWb.stall with
  | true =>
      have next : (s.step g i).state = .throwErr := by simp [State.step, State.throwErrStep, state, err, stall]
      simp only [Owes, next]
      refine ⟨before, ws, cur, ?_, dreq, ?_, ?_, ?_, ?_, ?_⟩
      · simp [State.step, State.throwErrStep, state, err, stall, throws.cyc]
      · rw [quiet.coming, throws.coming]
      · rw [quiet.done, throws.done]
      · rw [next_cycle throws.cyc, throws.cycle, stall, taken_stall]
        simp
      · simpa [pending, State.step, State.throwErrStep, state, err, stall] using words
      · rw [next_shown throws.cyc]
        exact throws.all
  | false =>
      have next : (s.step g i).state = .finishCycle := by simp [State.step, State.throwErrStep, state, err, stall]
      simp only [Owes, next]
      refine ⟨before, ⟨ws, true⟩, ws, ?_, dreq, ?_, ?_, ?_, ?_, ?_⟩
      · simp [State.step, State.throwErrStep, state, err, stall, State.shows, throws.cyc]
      · rw [quiet.coming, throws.coming]
      · rw [quiet.done, throws.done]
      · rw [next_cycle throws.cyc, throws.cycle, stall, taken_free throws.cyc, Option.getD_some, words]
      · refine (if_pos rfl).mpr ⟨s.srcOut.sel, ?_⟩
        simp [pending, State.step, State.throwErrStep, state, err, stall, State.shows, SourceOut.word, statusWord,
          status]
      · rw [next_shown throws.cyc]
        exact throws.all

theorem finishes_step (finishes : Finishes s b before f cur) (state : s.state = .finishCycle)
    (respects : Respects b i) : Owes (s.step g i) (b.next g s i) := by
  have quiet := respects.quiet finishes.asked
  have words := finishes.words
  have dreq : s.snkDreq g i = false := dreq_closed (.inl state)
  have cycle : (b.next g s i).cycle = some (cur ++ taken s.srcOut i.srcWb.stall) := by
    rw [next_cycle finishes.cyc, finishes.cycle]
    rfl
  by_cases leaves : ((s.ackCount == 0 || g.gIgnoreAck) && !s.srcOut.stb) = true
  · have next : (s.step g i).state = .idle := by simp only [State.step, State.finishCycleStep, state, leaves]; rfl
    have stb : s.srcOut.stb = false := by
      rw [Bool.and_eq_true, Bool.not_eq_true'] at leaves
      exact leaves.2
    simp only [Owes, next]
    refine ⟨?_, ?_, ?_, ?_⟩
    · simp only [State.step, State.finishCycleStep, state, leaves]
      rfl
    · simp only [State.step, State.finishCycleStep, state, leaves]
      simp [stb]
    · rw [quiet.coming, finishes.coming]
    · rw [quiet.done, finishes.done, next_shown finishes.cyc, cycle, taken_of_not_stb _ _ stb]
      refine List.rel_append finishes.all (.cons ?_ .nil)
      simpa [pending, stb] using words
  · rw [Bool.not_eq_true] at leaves
    have next : (s.step g i).state = .finishCycle := by
      simp only [State.step, State.finishCycleStep, state, leaves]
      rfl
    have out : (s.step g i).srcOut = { s.srcOut with stb := s.srcOut.stb && i.srcWb.stall } := by
      simp only [State.step, State.finishCycleStep, state, leaves]
      rfl
    have now : pending (s.step g i) = if i.srcWb.stall then pending s else [] := by
      rw [pending, out]
      cases stall : i.srcWb.stall <;> cases stb : s.srcOut.stb <;> simp [pending, stb, SourceOut.word]
    simp only [Owes, next]
    refine ⟨before, f, _, by rw [out]; exact finishes.cyc, dreq, ?_, ?_, cycle, ?_, ?_⟩
    · rw [quiet.coming, finishes.coming]
    · rw [quiet.done, finishes.done]
    · rw [now, List.append_assoc, taken_pending finishes.cyc]
      exact words
    · rw [next_shown finishes.cyc]
      exact finishes.all

theorem owes_step (kept : Kept s b) (respects : Respects b i) : Owes (s.step g i) (b.next g s i) := by
  have owes := kept.owes
  cases state : s.state <;> simp only [Owes, state] at owes
  case idle => exact rests_step owes state kept.sofReg respects
  case data =>
      obtain ⟨ws, sends⟩ := owes
      exact sends_step sends state respects
  case flushStall =>
      obtain ⟨ws, cur, flushes⟩ := owes
      exact flushes_step flushes state respects
  case throwErr =>
      obtain ⟨before, ws, cur, throws⟩ := owes
      exact throws_step throws state kept.stat respects
  case finishCycle =>
      obtain ⟨before, f, cur, finishes⟩ := owes
      exact finishes_step finishes state respects

/-- No start of a frame comes while one is being ended. -/
theorem sofReg_step (kept : Kept s b) (respects : Respects b i) : (s.step g i).sofReg = false := by
  have owes := kept.owes
  have sofReg := kept.sofReg
  have err := respects.noErr
  cases state : s.state <;> simp only [Owes, state] at owes
  case idle =>
      simp only [State.step, State.idleStep, state]
      split <;> exact sofReg
  case data =>
      simp only [State.step, State.dataStep, state, err]
      split_ifs <;> rfl
  case flushStall =>
      simp only [State.step, State.flushStallStep, state, err]
      split_ifs <;> simp_all
  case throwErr =>
      obtain ⟨before, ws, cur, throws⟩ := owes
      have quiet := respects.quiet throws.asked
      simp only [State.step, State.throwErrStep, state, err, quiet.sof, sofReg]
      split_ifs <;> simp_all
  case finishCycle =>
      obtain ⟨before, f, cur, finishes⟩ := owes
      have quiet := respects.quiet finishes.asked
      simp only [State.step, State.finishCycleStep, state, quiet.sof, sofReg]
      split_ifs <;> rfl

theorem stat_step (stat : s.stat = {} ∨ s.stat = { error := true }) :
    (s.step g i).stat = {} ∨ (s.step g i).stat = { error := true } := by
  cases state : s.state <;> simp only [State.step, state]
  case idle =>
      simp only [State.idleStep]
      split <;> exact stat
  case data =>
      simp only [State.dataStep]
      split_ifs <;> exact stat
  case flushStall =>
      simp only [State.flushStallStep]
      split_ifs <;> exact stat
  case throwErr =>
      simp only [State.throwErrStep]
      split_ifs
      · exact stat
      · right
        rcases stat with stat | stat <;> simp [stat]
      · exact stat
  case finishCycle =>
      simp only [State.finishCycleStep]
      split <;> exact stat

theorem kept_step (kept : Kept s b) (respects : Respects b i) : Kept (s.step g i) (b.next g s i) :=
  ⟨sofReg_step kept respects, stat_step kept.stat, owes_step kept respects⟩

end Edge

/-! ### Runs -/

/-- Where the bus is with the frames: while `cyc` is low all of them have been shown, and while it is high all but one,
whose words up to here have been accepted, in order and once. -/
structure Faithful (s : State) (b : Book) : Prop where
  low : s.srcOut.cyc = false → b.coming = none ∧ AllShown b.done (b.shown ++ b.cycle.toList)
  coming : ∀ ws, b.coming = some ws →
    s.srcOut.cyc = true ∧ AllShown b.done b.shown ∧ b.cycle.getD [] <+: ws
  ended : s.srcOut.cyc = true → b.coming = none →
    ∃ before f words, b.done = before ++ [f] ∧ AllShown before b.shown ∧ f.Shown words ∧ b.cycle.getD [] <+: words

/-- The start of a frame finds `cyc` low and raises it. -/
def Starts (g : Generics) (p : State × Book) (i : In) : Prop :=
  i.snkFab.sof = true → p.1.srcOut.cyc = false ∧ (p.1.step g i).srcOut.cyc = true

/-- The slave does not stall, and has acknowledged what the master counts when there is nothing on the bus. -/
structure Calm (g : Generics) (p : State × Book) (i : In) : Prop where
  stall : i.srcWb.stall = false
  acks : p.1.srcOut.stb = false → g.gIgnoreAck = true ∨ p.1.ackCount = 0

section Runs

variable {g : Generics} {s : State} {b : Book} {i : In}

theorem kept_reset (reset : AfterReset s) (asked : Bool) : Kept s { asked } := by
  refine ⟨reset.sofReg, reset.stat, ?_⟩
  simp only [Owes, reset.state]
  exact ⟨reset.cyc, reset.stb, rfl, .nil⟩

theorem Kept.faithful (kept : Kept s b) : Faithful s b := by
  have owes := kept.owes
  cases state : s.state <;> simp only [Owes, state] at owes
  case idle =>
      refine ⟨fun _ => ⟨owes.coming, owes.all⟩, fun ws some => ?_, fun high => ?_⟩
      · simp [owes.coming] at some
      · exact absurd (owes.cyc.symm.trans high) Bool.false_ne_true
  case data =>
      obtain ⟨ws, sends⟩ := owes
      refine ⟨fun low => ?_, fun us some => ?_, fun _ none => ?_⟩
      · exact absurd (low.symm.trans sends.cyc) Bool.false_ne_true
      · obtain rfl := Option.some_inj.1 (sends.coming.symm.trans some)
        exact ⟨sends.cyc, sends.all, _, sends.words⟩
      · simp [sends.coming] at none
  case flushStall =>
      obtain ⟨ws, cur, flushes⟩ := owes
      refine ⟨fun low => ?_, fun us some => ?_, fun _ none => ?_⟩
      · exact absurd (low.symm.trans flushes.cyc) Bool.false_ne_true
      · obtain rfl := Option.some_inj.1 (flushes.coming.symm.trans some)
        refine ⟨flushes.cyc, flushes.all, pending s ++ [s.tmpWord], ?_⟩
        rw [flushes.cycle, Option.getD_some, ← List.append_assoc, flushes.words]
      · simp [flushes.coming] at none
  case throwErr =>
      obtain ⟨before, ws, cur, throws⟩ := owes
      refine ⟨fun low => ?_, fun us some => ?_, fun _ _ => ?_⟩
      · exact absurd (low.symm.trans throws.cyc) Bool.false_ne_true
      · simp [throws.coming] at some
      · refine ⟨before, ⟨ws, true⟩, ws ++ [statusWord 0], throws.done, throws.all, (if_pos rfl).mpr ⟨0, rfl⟩, ?_⟩
        rw [throws.cycle, Option.getD_some, ← throws.words, List.append_assoc]
        exact List.prefix_append _ _
  case finishCycle =>
      obtain ⟨before, f, cur, finishes⟩ := owes
      refine ⟨fun low => ?_, fun us some => ?_, fun _ _ => ?_⟩
      · exact absurd (low.symm.trans finishes.cyc) Bool.false_ne_true
      · simp [finishes.coming] at some
      · refine ⟨before, f, _, finishes.done, finishes.all, finishes.words, ?_⟩
        rw [finishes.cycle]
        exact List.prefix_append _ _

theorem Kept.starts (kept : Kept s b) (respects : Respects b i) : Starts g (s, b) i := by
  intro sof
  have none := (respects.sof sof).2.1
  have asked := (respects.sof sof).1
  have owes := kept.owes
  cases state : s.state <;> simp only [Owes, state] at owes
  case idle =>
      refine ⟨owes.cyc, ?_⟩
      simp [State.step, State.idleStep, state, sof, respects.noErr]
  case data =>
      obtain ⟨ws, sends⟩ := owes
      simp [sends.coming] at none
  case flushStall =>
      obtain ⟨ws, cur, flushes⟩ := owes
      simp [flushes.coming] at none
  case throwErr =>
      obtain ⟨before, ws, cur, throws⟩ := owes
      exact absurd (throws.asked.symm.trans asked) Bool.false_ne_true
  case finishCycle =>
      obtain ⟨before, f, cur, finishes⟩ := owes
      exact absurd (finishes.asked.symm.trans asked) Bool.false_ne_true

/-- How many cycles an ended frame takes at most when nothing is in its way. -/
def left (s : State) : Nat :=
  match s.state with
  | .throwErr => 3
  | .finishCycle => if s.srcOut.stb then 2 else 1
  | _ => 0

theorem left_step (kept : Kept s b) (none : b.coming = none) (high : s.srcOut.cyc = true) (respects : Respects b i)
    (calm : Calm g (s, b) i) : (b.next g s i).coming = .none ∧ left (s.step g i) < left s := by
  have owes := kept.owes
  have err := respects.noErr
  have stall := calm.stall
  cases state : s.state <;> simp only [Owes, state] at owes
  case idle => exact absurd (owes.cyc.symm.trans high) Bool.false_ne_true
  case data =>
      obtain ⟨ws, sends⟩ := owes
      simp [sends.coming] at none
  case flushStall =>
      obtain ⟨ws, cur, flushes⟩ := owes
      simp [flushes.coming] at none
  case throwErr =>
      obtain ⟨before, ws, cur, throws⟩ := owes
      refine ⟨by rw [(respects.quiet throws.asked).coming, none], ?_⟩
      simp [left, State.step, State.throwErrStep, state, err, stall, State.shows]
  case finishCycle =>
      obtain ⟨before, f, cur, finishes⟩ := owes
      refine ⟨by rw [(respects.quiet finishes.asked).coming, none], ?_⟩
      cases stb : s.srcOut.stb with
      | true => simp [left, State.step, State.finishCycleStep, state, stall, stb]
      | false =>
          have acks : (s.ackCount == 0 || g.gIgnoreAck) = true := by
            rcases calm.acks stb with ignore | count
            · simp [ignore]
            · simp [show s.ackCount = 0 from count]
          have next : (s.step g i).state = .idle := by
            simp only [State.step, State.finishCycleStep, state, acks, stb]
            rfl
          simp [left, next, state, stb]

/-- A frame that has ended is out three calm cycles later. -/
theorem ends_soon (kept : Kept s b) (none : b.coming = none) (later : List In) (long : left s ≤ later.length)
    (along : Along (stepBook g) (fun p i => Respects p.2 i ∧ Calm g p i) (s, b) later) :
    Visits (stepBook g) (fun p => p.1.srcOut.cyc = false) (s, b) later := by
  induction later generalizing s b with
  | nil =>
      by_contra high
      have owes := kept.owes
      simp only [Visits, Bool.not_eq_false] at high
      cases state : s.state <;> simp only [Owes, state] at owes
      case idle => exact Bool.false_ne_true (owes.cyc.symm.trans high)
      case data =>
          obtain ⟨ws, sends⟩ := owes
          simp [sends.coming] at none
      case flushStall =>
          obtain ⟨ws, cur, flushes⟩ := owes
          simp [flushes.coming] at none
      case throwErr => simp [left, state] at long
      case finishCycle =>
          simp only [left, state, List.length_nil] at long
          split at long <;> omega
  | cons i rest ih =>
      cases high : s.srcOut.cyc with
      | false => exact .inl high
      | true =>
          obtain ⟨⟨respects, calm⟩, later⟩ := along
          obtain ⟨coming, less⟩ := left_step kept none high respects calm
          have fits : left (s.step g i) ≤ rest.length := by
            rw [List.length_cons] at long
            omega
          exact .inr (ih (kept_step kept respects) coming fits later)

end Runs

theorem left_le (s : State) : left s ≤ 3 := by
  unfold left
  split
  · exact le_rfl
  · split <;> omega
  · exact Nat.zero_le 3

/-- `asked` is `snk_dreq_o` in the last cycle of the reset. -/
theorem frames_forwarded (g : Generics) (s : State) (asked : Bool) (inputs : List In) (reset : AfterReset s)
    (respects : Along (stepBook g) (fun p i => Respects p.2 i) (s, { asked }) inputs) :
    Faithful (run (stepBook g) (s, { asked }) inputs).1 (run (stepBook g) (s, { asked }) inputs).2 ∧
    Along (stepBook g) (Starts g) (s, { asked }) inputs ∧
    ∀ later, (run (stepBook g) (s, { asked }) inputs).2.coming = none → later.length = 3 →
      Along (stepBook g) (fun p i => Respects p.2 i ∧ Calm g p i) (run (stepBook g) (s, { asked }) inputs) later →
      Visits (stepBook g) (fun p => p.1.srcOut.cyc = false) (run (stepBook g) (s, { asked }) inputs) later := by
  have start : Kept s { asked } := kept_reset reset asked
  have kept : Kept (run (stepBook g) (s, { asked }) inputs).1 (run (stepBook g) (s, { asked }) inputs).2 :=
    respects.invariant (fun p : State × Book => Kept p.1 p.2) (fun _ _ kept respects => kept_step kept respects) start
  refine ⟨kept.faithful, ?_, fun later none long along => ?_⟩
  · exact respects.yields (fun p : State × Book => Kept p.1 p.2) (fun _ _ kept respects => kept_step kept respects)
      (fun _ _ kept respects => kept.starts respects) start
  · exact ends_soon kept none later (by rw [long]; exact left_le _) along

def resetState : State :=
  ⟨.idle, 0, ⟨cWrfData, 0, false, false, true, 0⟩, false, 0, 0, true, false, {}⟩

/-- The slave stalls with the second word, and the frame ends with an error. -/
def stalledFrame : List In :=
  [{}, { snkFab := { sof := true } }, { snkFab := { dvalid := true, data := 0x1234 } },
    { snkFab := { dvalid := true, data := 0x5678 }, srcWb := ⟨false, true, false, false⟩ }, {},
    { snkFab := { error := true } }, {}, {}, {}, {}]

theorem frames_forwarded_stalled :
    Faithful (run (stepBook ⟨true, false⟩) (resetState, {}) stalledFrame).1
      (run (stepBook ⟨true, false⟩) (resetState, {}) stalledFrame).2 :=
  (frames_forwarded ⟨true, false⟩ resetState false stalledFrame
    ⟨rfl, rfl, rfl, rfl, rfl, rfl, rfl, rfl, .inl rfl⟩ (by decide)).1

example : (run (stepBook ⟨true, false⟩) (resetState, {}) stalledFrame).2.shown =
    [[⟨0, 0x1234, 3⟩, ⟨0, 0x5678, 3⟩, ⟨2, 2, 3⟩]] := by decide

end WrCores.Endpoint.RxWbMaster
