import WrCores.Endpoint.Line8
import WrCores.Endpoint.RxPcs8

/-!
ep_rx_pcs_8bit on a line of frames and idle pairs, followed behind the decoder's registers
as the 16-bit receiver is. Frames and pairs have an even number of characters, so that
every one of them starts at an even position. The low byte of half a word is whatever the
last word left there; events are compared without it.
-/

namespace WrCores.Endpoint

open Clocked

/-- An event without the low byte of half a word. -/
def FabEvent.trim : FabEvent → FabEvent
  | .word data true => .word (data.extractLsb' 8 8 ++ 0#8) true
  | event => event

namespace PcsFrame

/-- A good frame as it comes out of the receiver. -/
def heard8 (words : List (BitVec 16)) (data : BitVec 16) (bytesel : Bool) : List FabEvent :=
  .sof :: (words.map (.word · false) ++ [(FabEvent.word data bytesel).trim])

def received8 (f : PcsFrame) (stamp : Option (BitVec 32)) : List FabEvent :=
  match f.last with
  | some (data, bytesel) => heard8 f.words data bytesel ++ endEvents stamp
  | none => []

end PcsFrame

namespace RxDecoded8

theorem decode_comma (even : Bool) : decode (.comma, even) =
    { data := cK28_5, isK := true, isComma := true, isEven := even } := by cases even <;> decide

theorem decode_spd (even : Bool) : decode (.spd, even) =
    { data := cK27_7, isK := true, isSpd := true, isEven := even } := by cases even <;> decide

theorem decode_epd (even : Bool) : decode (.epd, even) =
    { data := cK29_7, isK := true, isEpd := true, isEven := even } := by cases even <;> decide

theorem decode_extend (even : Bool) : decode (.extend, even) =
    { data := cK23_7, isK := true, isExtend := true, isEven := even } := by cases even <;> decide

theorem decode_preamble (even : Bool) : decode (.char cPreambleChar, even) =
    { data := cPreambleChar, isPreambleChar := true, isEven := even } := by cases even <;> decide

theorem decode_sfd (even : Bool) : decode (.char cPreambleSfd, even) =
    { data := cPreambleSfd, isSfdChar := true, isEven := even } := by cases even <;> decide

theorem decode_second {c : Code8} (second : TxPcs8.IsSecond c) (even : Bool) :
    decode (c, even) = { data := c.data, isIdle := true, isEven := even } := by
  rcases second with rfl | rfl <;> cases even <;> decide

end RxDecoded8

/-- The receive FSM with the timestamping unit. -/
structure RxCore8 where
  fsm : RxFsm8
  stamps : Stamps
  deriving DecidableEq, Repr

namespace RxCore8

def step (s : RxCore8) (d : RxDecoded8) : RxCore8 :=
  let fsm := s.fsm.step d s.stamps.input
  ⟨fsm, s.stamps.next fsm.fab.sof⟩

def events (s : RxCore8) : List FabEvent := s.fsm.fab.events

/-- What an edge brings to `pcs_fab_o`. -/
def brings (s : RxCore8) (d : RxDecoded8) : List FabEvent := (s.step d).events

/-- Between two pairs, `pending` words of a timestamp still to come. -/
structure Waits (pending : BitVec 3) (stamps : Stamps) (s : RxCore8) : Prop where
  state : s.fsm.rxState = .noframe
  withTs : s.fsm.fifoWithRxTs = false
  pending : s.fsm.timestampPending = pending
  stamps : s.stamps = stamps

/-- Behind a comma. -/
structure Second (pending : BitVec 3) (stamps : Stamps) (s : RxCore8) : Prop where
  state : s.fsm.rxState = .comma
  pending : s.fsm.timestampPending = pending
  stamps : s.stamps = stamps

/-- In a frame, nothing pending. -/
structure Inside (state : RxPcs8State) (stamps : Stamps) (s : RxCore8) : Prop where
  state : s.fsm.rxState = state
  eof : s.fsm.fifoEof = false
  error : s.fsm.fifoError = false
  withTs : s.fsm.fifoWithRxTs = false
  pending : s.fsm.timestampPending = 0#3
  stamps : s.stamps = stamps

/-- The characters of a preamble, `cntr` the counter's value. -/
structure Preamble (cntr : BitVec 3) (stamps : Stamps) (s : RxCore8) : Prop
    extends Inside .spdPreamble stamps s where
  cntr : s.fsm.preambleCntr = cntr
  sof : s.fsm.fifoSof = false
  toggle : s.fsm.fifoWrToggle = false
  bytesel : s.fsm.fifoBytesel = false

/-- In front of the first or the second character of a word. -/
structure Payload (first : Bool) (stamps : Stamps) (s : RxCore8) : Prop
    extends Inside .payload stamps s where
  mask : s.fsm.fifoMaskWrite = true
  toggle : s.fsm.fifoWrToggle = first
  bytesel : s.fsm.fifoBytesel = false

/-- Behind the words of a frame. -/
structure Closing (stamps : Stamps) (s : RxCore8) : Prop extends Inside .extend stamps s where
  sof : s.fsm.fifoSof = false

section Edge

variable {s : RxCore8} {d : RxDecoded8} {stamps : Stamps} {pending : BitVec 3}

theorem fsm_step (f : RxFsm8) : f.step d stamps.input =
    match f.rxState with
    | .noframe => f.clearAn.noframeStep d stamps.input
    | .comma => RxFsm8.commaStep f f.clearAn d stamps.input
    | .cr3 => RxFsm8.cr3Step f f.clearAn d stamps.input
    | .cr4 => f.clearAn.cr4Step d stamps.input
    | .spdPreamble => f.clearAn.spdPreambleStep d stamps.input
    | .payload => f.clearAn.payloadStep d stamps.input
    | .extend => f.clearAn.extendStep d stamps.input := rfl

theorem insertTimestamp_events (f : RxFsm8) (withTs : f.fifoWithRxTs = false) (timestamp : BitVec 32) :
    (f.insertTimestamp timestamp).fab.events = dueEvents f.timestampPending timestamp := by
  have some := pending_iff f.timestampPending
  simp only [RxFsm8.insertTimestamp, dueEvents]
  split_ifs <;> simp_all [RxFsm8.fab, RxFsm8.fifoWrreq, InternalFabric.events]

theorem insertTimestamp_kept (f : RxFsm8) (timestamp : BitVec 32) :
    (f.insertTimestamp timestamp).fifoSof = false ∧
      (f.insertTimestamp timestamp).fifoWithRxTs = f.fifoWithRxTs ∧
      (f.insertTimestamp timestamp).timestampPending = f.timestampPending <<< 1 ∧
      (f.insertTimestamp timestamp).rxState = f.rxState := by
  simp only [RxFsm8.insertTimestamp]
  split_ifs <;> simp

/-- An edge outside of frames, at which none starts. -/
theorem noframe_step (stamps : Stamps) (f : RxFsm8) (state : f.rxState = .noframe) (spd : d.isSpd = false) :
    ∃ f', f.step d stamps.input = f' ∧ f'.fab = (f.clearAn.insertTimestamp stamps.input.timestamp).fab ∧
      f'.rxState = (if d.isComma then .comma else .noframe) ∧ f'.fifoWithRxTs = f.fifoWithRxTs ∧
      f'.timestampPending = f.timestampPending <<< 1 := by
  obtain ⟨-, withTs, pending, same⟩ := insertTimestamp_kept f.clearAn stamps.input.timestamp
  refine ⟨_, rfl, ?_⟩
  rw [fsm_step, state]
  cases comma : d.isComma <;>
    simp only [RxFsm8.noframeStep, comma, spd, Stamps.input, Bool.not_true, Bool.false_eq_true, if_false,
      if_true]
  · exact ⟨rfl, same.trans state, withTs, pending⟩
  · exact ⟨rfl, trivial, withTs, pending⟩

theorem Waits.edge (waits : Waits pending stamps s) (spd : d.isSpd = false) :
    (if d.isComma then Second (pending <<< 1) stamps (s.step d) else Waits (pending <<< 1) stamps (s.step d)) ∧
      s.brings d = dueEvents pending stamps.input.timestamp := by
  obtain ⟨state, withTs, rfl, rfl⟩ := waits
  obtain ⟨f', takes, fab, state', withTs', pending'⟩ := noframe_step s.stamps s.fsm state spd
  have sof : f'.fab.sof = false := by
    have none := (insertTimestamp_kept s.fsm.clearAn s.stamps.input.timestamp).1
    rw [fab, RxFsm8.fab, none, Bool.false_and]
  have kept : s.step d = ⟨f', s.stamps⟩ := by simp [step, takes, sof, Stamps.next]
  refine ⟨?_, ?_⟩
  · rw [kept]
    split
    case isTrue comma => exact ⟨by simp [state', comma], pending', rfl⟩
    case isFalse quiet => exact ⟨by simp [state', quiet], withTs'.trans withTs, pending', rfl⟩
  · rw [brings, kept, events, fab]
    exact insertTimestamp_events s.fsm.clearAn withTs _

theorem Waits.comma_edge (waits : Waits pending stamps s) (even : Bool) :
    Second (pending <<< 1) stamps (s.step (.decode (.comma, even))) ∧
      s.brings (.decode (.comma, even)) = dueEvents pending stamps.input.timestamp := by
  simpa [RxDecoded8.decode_comma] using
    waits.edge (d := .decode (.comma, even)) (by simp [RxDecoded8.decode_comma])

theorem Waits.quiet (waits : Waits 0#3 stamps s) (spd : d.isSpd = false) (comma : d.isComma = false) :
    Waits 0#3 stamps (s.step d) ∧ s.brings d = [] := by
  have edge := waits.edge spd
  rwa [comma, if_neg Bool.false_ne_true] at edge

theorem Second.edge {c : Code8} (at_ : Second pending stamps s) (second : TxPcs8.IsSecond c) :
    Waits pending stamps (s.step (.decode (c, false))) ∧ s.brings (.decode (c, false)) = [] := by
  obtain ⟨state, rfl, rfl⟩ := at_
  obtain ⟨cntr, found, takes⟩ : ∃ cntr found, s.fsm.step (.decode (c, false)) s.stamps.input =
      { s.fsm.clearAn with
        fifoMaskWrite := false
        fifoWrToggle := false
        fifoWithRxTs := false
        rxState := .noframe
        anIdleCntr := cntr
        anIdleMatch := found } := by
    rw [fsm_step, state, RxDecoded8.decode_second second]
    simp only [RxFsm8.commaStep, Stamps.input, RxFsm8.clearAn]
    by_cases full : s.fsm.anIdleCntr = 0b11#2
    · exact ⟨0, true, by simp [full]⟩
    · exact ⟨s.fsm.anIdleCntr + 1#2, false, by simp [full]⟩
  refine ⟨⟨?_, ?_, ?_, ?_⟩, ?_⟩
  · simp [step, takes]
  · simp [step, takes]
  · simp [step, takes, RxFsm8.clearAn]
  · simp [step, takes, Stamps.next, RxFsm8.fab, RxFsm8.fifoWrreq]
  · simp [brings, events, step, takes, RxFsm8.fab, RxFsm8.fifoWrreq, InternalFabric.events]

theorem Waits.spd_edge (waits : Waits 0#3 stamps s) :
    Preamble 7#3 stamps (s.step (.decode (.spd, true))) ∧ s.brings (.decode (.spd, true)) = [] := by
  obtain ⟨state, withTs, pending, rfl⟩ := waits
  have takes : s.fsm.step (.decode (.spd, true)) s.stamps.input = { s.fsm.clearAn with
      fifoSof := false
      fifoEof := false
      fifoError := false
      fifoBytesel := false
      fifoMaskWrite := false
      fifoWrToggle := false
      timestampPending := 0#3
      rxBusy := false
      timestampTrigger := false
      rmonInvalidCode := false
      preambleCntr := 7#3
      rxState := .spdPreamble } := by
    rw [fsm_step, state]
    simp [RxFsm8.noframeStep, RxDecoded8.decode_spd, Stamps.input, RxFsm8.insertTimestamp, RxFsm8.clearAn,
      pending]
  refine ⟨⟨⟨?_, ?_, ?_, ?_, ?_, ?_⟩, ?_, ?_, ?_, ?_⟩, ?_⟩
  · simp [step, takes]
  · simp [step, takes]
  · simp [step, takes]
  · simp [step, takes, RxFsm8.clearAn, withTs]
  · simp [step, takes]
  · simp [step, takes, Stamps.next, RxFsm8.fab]
  · simp [step, takes]
  · simp [step, takes]
  · simp [step, takes]
  · simp [step, takes]
  · simp [brings, events, step, takes, RxFsm8.fab, RxFsm8.fifoWrreq, InternalFabric.events, RxFsm8.clearAn, withTs]

theorem Preamble.edge {cntr : BitVec 3} (at_ : Preamble cntr stamps s) (positive : cntr ≠ 0#3)
    (even : Bool) :
    Preamble (cntr - 1#3) stamps (s.step (.decode (.char cPreambleChar, even))) ∧
      s.brings (.decode (.char cPreambleChar, even)) = [] := by
  obtain ⟨⟨state, eof, error, withTs, pending, rfl⟩, rfl, sof, toggle, bytesel⟩ := at_
  have takes : s.fsm.step (.decode (.char cPreambleChar, even)) s.stamps.input = { s.fsm.clearAn with
      rxBusy := true
      preambleCntr := s.fsm.preambleCntr - 1#3 } := by
    rw [fsm_step, state]
    simp [RxFsm8.spdPreambleStep, RxDecoded8.decode_preamble, Stamps.input, RxFsm8.clearAn, positive]
  refine ⟨⟨⟨?_, ?_, ?_, ?_, ?_, ?_⟩, ?_, ?_, ?_, ?_⟩, ?_⟩
  · simp [step, takes, RxFsm8.clearAn, state]
  · simp [step, takes, RxFsm8.clearAn, eof]
  · simp [step, takes, RxFsm8.clearAn, error]
  · simp [step, takes, RxFsm8.clearAn, withTs]
  · simp [step, takes, RxFsm8.clearAn, pending]
  · simp [step, takes, Stamps.next, RxFsm8.fab, RxFsm8.clearAn, sof]
  · simp [step, takes]
  · simp [step, takes, RxFsm8.clearAn, sof]
  · simp [step, takes, RxFsm8.clearAn, toggle]
  · simp [step, takes, RxFsm8.clearAn, bytesel]
  · simp [brings, events, step, takes, RxFsm8.fab, RxFsm8.fifoWrreq, InternalFabric.events, RxFsm8.clearAn,
      withTs, toggle]

theorem Preamble.sfd_edge (at_ : Preamble 1#3 stamps s) (even : Bool) :
    Payload true (stamps.next true) (s.step (.decode (.char cPreambleSfd, even))) ∧
      s.brings (.decode (.char cPreambleSfd, even)) = [.sof] := by
  obtain ⟨⟨state, eof, error, withTs, pending, rfl⟩, cntr, sof, toggle, bytesel⟩ := at_
  have takes : s.fsm.step (.decode (.char cPreambleSfd, even)) s.stamps.input = { s.fsm.clearAn with
      rxBusy := true
      timestampTrigger := true
      fifoSof := true
      fifoMaskWrite := true
      fifoWrToggle := true
      rxState := .payload } := by
    rw [fsm_step, state]
    simp [RxFsm8.spdPreambleStep, RxDecoded8.decode_sfd, Stamps.input, RxFsm8.clearAn, cntr]
  refine ⟨⟨⟨?_, ?_, ?_, ?_, ?_, ?_⟩, ?_, ?_, ?_⟩, ?_⟩
  · simp [step, takes]
  · simp [step, takes, RxFsm8.clearAn, eof]
  · simp [step, takes, RxFsm8.clearAn, error]
  · simp [step, takes, RxFsm8.clearAn, withTs]
  · simp [step, takes, RxFsm8.clearAn, pending]
  · simp [step, takes, RxFsm8.fab, RxFsm8.fifoWrreq]
  · simp [step, takes]
  · simp [step, takes]
  · simp [step, takes, RxFsm8.clearAn, bytesel]
  · simp [brings, events, step, takes, RxFsm8.fab, RxFsm8.fifoWrreq, InternalFabric.events, RxFsm8.clearAn,
      withTs, eof, error]

/-- A character of a word: the first one is kept, the second one completes the word. -/
theorem Payload.char_edge {first : Bool} (at_ : Payload first stamps s) (data : BitVec 8) (even : Bool) :
    Payload (!first) stamps (s.step (.decode (.char data, even))) ∧
      (s.step (.decode (.char data, even))).fsm.fifoRxData =
        (if first then data ++ s.fsm.fifoRxData.extractLsb' 0 8 else s.fsm.fifoRxData.extractLsb' 8 8 ++ data) ∧
      s.brings (.decode (.char data, even)) =
        if first then [] else [.word (s.fsm.fifoRxData.extractLsb' 8 8 ++ data) false] := by
  obtain ⟨⟨state, eof, error, withTs, pending, rfl⟩, mask, rfl, bytesel⟩ := at_
  have takes : s.fsm.step (.decode (.char data, even)) s.stamps.input = { s.fsm.clearAn with
      fifoSof := false
      fifoWrToggle := !s.fsm.fifoWrToggle
      fifoRxData :=
        if s.fsm.fifoWrToggle then data ++ s.fsm.fifoRxData.extractLsb' 0 8
        else s.fsm.fifoRxData.extractLsb' 8 8 ++ data } := by
    rw [fsm_step, state]
    simp [RxFsm8.payloadStep, RxDecoded8.decode, Code8.char, Stamps.input, RxFsm8.clearAn]
  refine ⟨⟨⟨?_, ?_, ?_, ?_, ?_, ?_⟩, ?_, ?_, ?_⟩, ?_, ?_⟩
  · simp [step, takes, RxFsm8.clearAn, state]
  · simp [step, takes, RxFsm8.clearAn, eof]
  · simp [step, takes, RxFsm8.clearAn, error]
  · simp [step, takes, RxFsm8.clearAn, withTs]
  · simp [step, takes, RxFsm8.clearAn, pending]
  · simp [step, takes, Stamps.next, RxFsm8.fab]
  · simp [step, takes, RxFsm8.clearAn, mask]
  · simp [step, takes]
  · simp [step, takes, RxFsm8.clearAn, bytesel]
  · simp [step, takes]
  · cases phase : s.fsm.fifoWrToggle <;>
      simp [brings, events, step, takes, RxFsm8.fab, RxFsm8.fifoWrreq, InternalFabric.events,
        RxFsm8.clearAn, withTs, eof, error, mask, phase, bytesel]

/-- The end of a frame: half a word is written now. -/
theorem Payload.epd_edge {first : Bool} (at_ : Payload first stamps s) (even : Bool) :
    Closing stamps (s.step (.decode (.epd, even))) ∧
      s.brings (.decode (.epd, even)) = if first then [] else [.word s.fsm.fifoRxData true] := by
  obtain ⟨⟨state, eof, error, withTs, pending, rfl⟩, mask, rfl, bytesel⟩ := at_
  have takes : s.fsm.step (.decode (.epd, even)) s.stamps.input = { s.fsm.clearAn with
      fifoSof := false
      fifoBytesel := !s.fsm.fifoWrToggle
      fifoWrToggle := !s.fsm.fifoWrToggle
      rxState := .extend } := by
    rw [fsm_step, state]
    simp [RxFsm8.payloadStep, RxDecoded8.decode_epd, Stamps.input, RxFsm8.clearAn]
  refine ⟨⟨⟨?_, ?_, ?_, ?_, ?_, ?_⟩, ?_⟩, ?_⟩
  · simp [step, takes]
  · simp [step, takes, RxFsm8.clearAn, eof]
  · simp [step, takes, RxFsm8.clearAn, error]
  · simp [step, takes, RxFsm8.clearAn, withTs]
  · simp [step, takes, RxFsm8.clearAn, pending]
  · simp [step, takes, Stamps.next, RxFsm8.fab]
  · simp [step, takes]
  · cases phase : s.fsm.fifoWrToggle <;>
      simp [brings, events, step, takes, RxFsm8.fab, RxFsm8.fifoWrreq, InternalFabric.events,
        RxFsm8.clearAn, withTs, eof, error, mask, phase]

theorem Closing.extend_edge (at_ : Closing stamps s) (even : Bool) :
    Closing stamps (s.step (.decode (.extend, even))) ∧ s.brings (.decode (.extend, even)) = [] := by
  obtain ⟨⟨state, eof, error, withTs, pending, rfl⟩, sof⟩ := at_
  have takes : s.fsm.step (.decode (.extend, even)) s.stamps.input = { s.fsm.clearAn with
      timestampTrigger := false
      fifoMaskWrite := false
      rxState := .extend } := by
    rw [fsm_step, state]
    simp [RxFsm8.extendStep, RxDecoded8.decode_extend, RxFsm8.clearAn]
  refine ⟨⟨⟨?_, ?_, ?_, ?_, ?_, ?_⟩, ?_⟩, ?_⟩
  · simp [step, takes]
  · simp [step, takes, RxFsm8.clearAn, eof]
  · simp [step, takes, RxFsm8.clearAn, error]
  · simp [step, takes, RxFsm8.clearAn, withTs]
  · simp [step, takes, RxFsm8.clearAn, pending]
  · simp [step, takes, Stamps.next, RxFsm8.fab, RxFsm8.clearAn, sof]
  · simp [step, takes, RxFsm8.clearAn, sof]
  · simp [brings, events, step, takes, RxFsm8.fab, RxFsm8.fifoWrreq, InternalFabric.events, RxFsm8.clearAn,
      withTs]

/-- The first comma closes the frame, or announces its timestamp. -/
theorem Closing.comma_edge (at_ : Closing stamps s) (even : Bool) :
    Second (if stamps.current.isSome then 7#3 else 0#3) stamps (s.step (.decode (.comma, even))) ∧
      s.brings (.decode (.comma, even)) =
        if stamps.current.isSome then [.hasRxTimestamp] else [.eof] := by
  obtain ⟨⟨state, eof, error, withTs, pending, rfl⟩, sof⟩ := at_
  have takes : s.fsm.step (.decode (.comma, even)) s.stamps.input = { s.fsm.clearAn with
      timestampTrigger := false
      fifoEof := !s.stamps.current.isSome
      fifoWithRxTs := s.stamps.current.isSome
      fifoMaskWrite := true
      fifoWrToggle := true
      timestampPending := if s.stamps.current.isSome then 7#3 else 0#3
      rxState := .comma } := by
    rw [fsm_step, state]
    cases stamped : s.stamps.current.isSome <;>
      simp [RxFsm8.extendStep, RxDecoded8.decode_comma, Stamps.input, RxFsm8.clearAn, stamped]
  refine ⟨⟨?_, ?_, ?_⟩, ?_⟩
  · simp [step, takes]
  · simp [step, takes]
  · simp [step, takes, Stamps.next, RxFsm8.fab, RxFsm8.clearAn, sof]
  · cases stamped : s.stamps.current.isSome <;>
      simp [brings, events, step, takes, RxFsm8.fab, RxFsm8.fifoWrreq, InternalFabric.events, RxFsm8.clearAn,
        sof, error, stamped]

end Edge

/-! ### Runs -/

section Run

variable {s : RxCore8} {stamps : Stamps}

/-- The decoded line from an even position on. -/
def decoded (codes : List Code8) : List RxDecoded8 := (marked true codes).map .decode

theorem decoded_append (codes more : List Code8) (whole : Even codes.length) :
    decoded (codes ++ more) = decoded codes ++ decoded more := by
  rw [decoded, marked_append _ _ _ whole, List.map_append]
  rfl

@[simp] theorem decoded_two (c c' : Code8) (rest : List Code8) :
    decoded (c :: c' :: rest) = .decode (c, true) :: .decode (c', false) :: decoded rest := rfl

@[simp] theorem flatMap_pair_cons (c : Code8) (rest : List Code8) :
    (c :: rest).flatMap TxPcs8.pair = .comma :: c :: rest.flatMap TxPcs8.pair := rfl

@[simp] theorem flatMap_wordCodes8_cons (data : BitVec 16) (rest : List (BitVec 16)) :
    (data :: rest).flatMap PcsFrame.wordCodes8 =
      .high data :: .low data :: rest.flatMap PcsFrame.wordCodes8 := rfl

theorem pairs_run (seconds : List Code8) (idle : ∀ c ∈ seconds, TxPcs8.IsSecond c)
    (waits : Waits 0#3 stamps s) :
    Waits 0#3 stamps (run step s (decoded (seconds.flatMap TxPcs8.pair))) ∧
      collect step brings s (decoded (seconds.flatMap TxPcs8.pair)) = [] := by
  induction seconds generalizing s with
  | nil => exact ⟨waits, rfl⟩
  | cons c rest ih =>
      obtain ⟨at₁, silent₁⟩ := waits.comma_edge true
      obtain ⟨at₂, silent₂⟩ := at₁.edge (idle c (by simp))
      obtain ⟨there, silent⟩ := ih (fun c member => idle c (by simp [member])) at₂
      refine ⟨there, ?_⟩
      rw [flatMap_pair_cons, decoded_two, collect_cons, collect_cons, silent₁, silent₂, silent]
      rfl

/-- One pair while a timestamp is pending. -/
theorem Waits.pair_run {pending : BitVec 3} (waits : Waits pending stamps s) {c : Code8}
    (second : TxPcs8.IsSecond c) :
    Waits (pending <<< 1) stamps ((s.step (.decode (.comma, true))).step (.decode (c, false))) ∧
      collect step brings s [.decode (.comma, true), .decode (c, false)] =
        dueEvents pending stamps.input.timestamp := by
  obtain ⟨at₁, shown⟩ := waits.comma_edge true
  obtain ⟨at₂, silent⟩ := at₁.edge second
  exact ⟨at₂, by simp [shown, silent]⟩

/-- Four pairs are enough to end a frame, with a timestamp or without. -/
theorem closing_run (seconds : List Code8) (idle : ∀ c ∈ seconds, TxPcs8.IsSecond c)
    (long : 4 ≤ seconds.length) (closing : Closing stamps s) :
    Waits 0#3 stamps (run step s (decoded (seconds.flatMap TxPcs8.pair))) ∧
      collect step brings s (decoded (seconds.flatMap TxPcs8.pair)) = endEvents stamps.current := by
  match seconds, long with
  | c₁ :: c₂ :: c₃ :: c₄ :: rest, _ =>
      obtain ⟨second₁, shown₁⟩ := closing.comma_edge true
      obtain ⟨waits₁, silent₁⟩ := second₁.edge (idle c₁ (by simp))
      cases stamp : stamps.current with
      | none =>
          simp only [stamp, Option.isSome_none, Bool.false_eq_true, if_false] at waits₁ shown₁
          obtain ⟨there, silent⟩ := pairs_run (c₂ :: c₃ :: c₄ :: rest)
            (fun c member => idle c (by simp at member ⊢; tauto)) waits₁
          refine ⟨there, ?_⟩
          rw [flatMap_pair_cons, decoded_two, collect_cons, collect_cons, shown₁, silent₁, silent]
          rfl
      | some timestamp =>
          simp only [stamp, Option.isSome_some, if_true] at waits₁ shown₁
          obtain ⟨waits₂, shown₂⟩ := waits₁.pair_run (idle c₂ (by simp))
          obtain ⟨waits₃, shown₃⟩ := waits₂.pair_run (idle c₃ (by simp))
          obtain ⟨waits₄, shown₄⟩ := waits₃.pair_run (idle c₄ (by simp))
          obtain ⟨there, silent⟩ := pairs_run rest (fun c member => idle c (by simp [member])) waits₄
          refine ⟨there, ?_⟩
          have whole : stamps.input.timestamp = timestamp := by simp [Stamps.input, stamp]
          rw [whole] at shown₂ shown₃ shown₄
          simp only [collect_cons, collect_nil, List.append_nil] at shown₂ shown₃ shown₄
          simp only [flatMap_pair_cons, decoded_two, collect_cons, shown₁, silent₁, silent, List.append_nil,
            List.nil_append]
          rw [← List.append_assoc (brings _ _) (brings _ _), shown₂, ← List.append_assoc (brings _ _) (brings _ _),
            shown₃, shown₄]
          rfl

theorem high_of_append (high low : BitVec 8) : BitVec.extractLsb' (n := 16) 8 8 (high ++ low) = high :=
  BitVec.extractLsb'_append_eq_left

theorem words_run (words : List (BitVec 16)) (at_ : Payload true stamps s) :
    Payload true stamps (run step s (decoded (words.flatMap PcsFrame.wordCodes8))) ∧
      collect step brings s (decoded (words.flatMap PcsFrame.wordCodes8)) = words.map (.word · false) := by
  induction words generalizing s with
  | nil => exact ⟨at_, rfl⟩
  | cons data rest ih =>
      obtain ⟨at₁, kept, silent⟩ := at_.char_edge (data.extractLsb' 8 8) true
      obtain ⟨at₂, -, shown⟩ := at₁.char_edge (data.extractLsb' 0 8) false
      rw [if_pos rfl] at kept silent
      rw [if_neg (by decide), kept, high_of_append, halves_append] at shown
      obtain ⟨there, shown'⟩ := ih at₂
      refine ⟨there, ?_⟩
      rw [flatMap_wordCodes8_cons, decoded_two, collect_cons, collect_cons, Code8.high, Code8.low, silent,
        shown, shown']
      rfl

/-- The last word, whose low byte comes from the word before if it is only half a word. -/
theorem last_run (data : BitVec 16) (bytesel : Bool) (at_ : Payload true stamps s) :
    Closing stamps (run step s (decoded (PcsFrame.lastCodes8 data bytesel))) ∧
      (collect step brings s (decoded (PcsFrame.lastCodes8 data bytesel))).map .trim =
        [(FabEvent.word data bytesel).trim] := by
  obtain ⟨at₁, kept, silent⟩ := at_.char_edge (data.extractLsb' 8 8) true
  rw [if_pos rfl] at kept silent
  cases bytesel with
  | false =>
      obtain ⟨at₂, -, shown⟩ := at₁.char_edge (data.extractLsb' 0 8) false
      rw [if_neg (by decide), kept, high_of_append, halves_append] at shown
      obtain ⟨closing, silent'⟩ := at₂.epd_edge true
      obtain ⟨closing, silent''⟩ := closing.extend_edge false
      rw [if_pos (by decide)] at silent'
      refine ⟨closing, ?_⟩
      simp only [PcsFrame.lastCodes8, Bool.false_eq_true, if_false, decoded_two, Code8.high, Code8.low,
        collect_cons, silent, shown, silent', silent'']
      rfl
  | true =>
      obtain ⟨closing, shown⟩ := at₁.epd_edge false
      rw [if_neg (by decide), kept] at shown
      obtain ⟨closing, silent'⟩ := closing.extend_edge true
      obtain ⟨closing, silent''⟩ := closing.extend_edge false
      refine ⟨closing, ?_⟩
      simp only [PcsFrame.lastCodes8, if_true, decoded_two, Code8.high, collect_cons, silent, shown, silent',
        silent'', List.nil_append]
      simp only [List.singleton_append, List.map_cons, FabEvent.trim, high_of_append]
      rfl

theorem preamble_run (waits : Waits 0#3 stamps s) :
    Payload true (stamps.next true) (run step s (decoded PcsFrame.preamble8)) ∧
      collect step brings s (decoded PcsFrame.preamble8) = [.sof] := by
  obtain ⟨at₀, silent₀⟩ := waits.spd_edge
  obtain ⟨at₁, silent₁⟩ := at₀.edge (by decide) false
  obtain ⟨at₂, silent₂⟩ := at₁.edge (by decide) true
  obtain ⟨at₃, silent₃⟩ := at₂.edge (by decide) false
  obtain ⟨at₄, silent₄⟩ := at₃.edge (by decide) true
  obtain ⟨at₅, silent₅⟩ := at₄.edge (by decide) false
  obtain ⟨at₆, silent₆⟩ := at₅.edge (by decide) true
  obtain ⟨inside, shown⟩ := Preamble.sfd_edge at₆ false
  have whole : decoded PcsFrame.preamble8 = [.decode (.spd, true), .decode (.char cPreambleChar, false),
      .decode (.char cPreambleChar, true), .decode (.char cPreambleChar, false),
      .decode (.char cPreambleChar, true), .decode (.char cPreambleChar, false),
      .decode (.char cPreambleChar, true), .decode (.char cPreambleSfd, false)] := rfl
  refine ⟨inside, ?_⟩
  simp only [whole, collect_cons, silent₀, silent₁, silent₂, silent₃, silent₄, silent₅, silent₆, shown]
  rfl

theorem map_trim_words (words : List (BitVec 16)) :
    (words.map (FabEvent.word · false)).map FabEvent.trim = words.map (FabEvent.word · false) := by
  simp [FabEvent.trim]

theorem frame_run (words : List (BitVec 16)) (data : BitVec 16) (bytesel : Bool) (waits : Waits 0#3 stamps s) :
    Closing (stamps.next true) (run step s (decoded (PcsFrame.codes8 words data bytesel))) ∧
      (collect step brings s (decoded (PcsFrame.codes8 words data bytesel))).map .trim =
        PcsFrame.heard8 words data bytesel := by
  obtain ⟨inside, shown⟩ := preamble_run waits
  obtain ⟨inside', words_shown⟩ := words_run words inside
  obtain ⟨closing, last⟩ := last_run data bytesel inside'
  have even : Even (words.flatMap PcsFrame.wordCodes8).length :=
    (aligned_flatMap words _ fun data _ => aligned_two (char_ne_comma _)).1
  rw [PcsFrame.codes8, decoded_append _ _ (by decide), decoded_append _ _ even, run_append, run_append,
    collect_append, collect_append, List.map_append, List.map_append, shown, words_shown, last, map_trim_words]
  exact ⟨closing, rfl⟩

/-- Between two frames, `evs` still to come. -/
inductive Owes (evs : List FabEvent) (stamps : Stamps) (s : RxCore8) : Prop where
  | nothing : evs = [] → Waits 0#3 stamps s → Owes evs stamps s
  | frameEnd : evs = endEvents stamps.current → Closing stamps s → Owes evs stamps s

theorem Owes.pairs_run {evs : List FabEvent} (owes : Owes evs stamps s) {least : Nat} {codes : List Code8}
    (idle : TxPcs8.IdlePairs least codes) (long : evs ≠ [] → 4 ≤ least) :
    Waits 0#3 stamps (run step s (decoded codes)) ∧ collect step brings s (decoded codes) = evs := by
  obtain ⟨seconds, enough, each, rfl⟩ := idle
  cases owes with
  | nothing none waits => exact none ▸ RxCore8.pairs_run seconds each waits
  | frameEnd ends closing =>
      have some : evs ≠ [] := by
        rw [ends]
        cases stamps.current <;> simp [endEvents]
      exact ends ▸ closing_run seconds each ((long some).trans enough) closing

theorem Owes.idles_run {evs : List FabEvent} (owes : Owes evs stamps s) {least : Nat} {codes : List Code8}
    (idle : TxPcs8.Idles least codes) (long : evs ≠ [] → 4 ≤ least) :
    collect step brings s (decoded codes) = evs := by
  obtain ⟨pairs, half, pairs_idle, rest, rfl⟩ := idle
  obtain ⟨waits, shown⟩ := owes.pairs_run pairs_idle long
  have silent : collect step brings (run step s (decoded pairs)) (decoded half) = [] := by
    rcases rest with rfl | rfl
    · rfl
    · exact List.append_eq_nil_iff.2 ⟨(waits.comma_edge true).2, rfl⟩
  rw [decoded_append _ _ pairs_idle.aligned.1, collect_append, shown, silent, List.append_nil]

theorem map_trim_endEvents (stamp : Option (BitVec 32)) : (endEvents stamp).map .trim = endEvents stamp := by
  cases stamp <;> rfl

/-- A whole line, and what is then still owed. -/
theorem line_run {g : Nat} {frames : List PcsFrame} {codes : List Code8}
    (line : TxPcs8.Line g frames codes) {evs : List FabEvent} (owes : Owes evs stamps s)
    (enough : evs ≠ [] → 2 ≤ g) (answers : List (Option (BitVec 32)))
    (coming : stamps.coming = answers) (each : answers.length = frames.length) :
    ∃ evs' stamps', Owes evs' stamps' (run step s (decoded codes)) ∧
      (collect step brings s (decoded codes) ++ evs').map .trim =
        evs.map .trim ++ (frames.zip answers).flatMap fun p => PcsFrame.received8 p.1 p.2 := by
  induction line generalizing s stamps evs answers with
  | done => exact ⟨evs, stamps, owes, by simp [decoded, marked]⟩
  | @frame g f fs data bytesel idles codes last idle line ih =>
      cases answers with
      | nil => cases each
      | cons answer answers =>
          have long : evs ≠ [] → 4 ≤ g + 2 := fun some => by
            have := enough some
            omega
          obtain ⟨waits, ends⟩ := owes.pairs_run idle long
          obtain ⟨closing, heard⟩ := frame_run f.words data bytesel waits
          have current : (stamps.next true).current = answer := by simp [Stamps.next, coming]
          obtain ⟨evs', stamps', there, rest⟩ := ih (.frameEnd rfl closing) (fun _ => by decide) answers
            (by simp [Stamps.next, coming]) (by simpa using each)
          have even := (aligned_append idle.aligned (aligned_codes8 f.words data bytesel)).1
          refine ⟨evs', stamps', ?_, ?_⟩
          · rw [decoded_append _ _ even, decoded_append _ _ idle.aligned.1, run_append, run_append]
            exact there
          · rw [decoded_append _ _ even, decoded_append _ _ idle.aligned.1, collect_append, collect_append,
              ends, run_append, List.append_assoc, List.map_append, rest, List.map_append, heard, current,
              map_trim_endEvents, List.zip_cons_cons, List.flatMap_cons]
            simp [PcsFrame.received8, last]

end Run

end RxCore8

end WrCores.Endpoint
