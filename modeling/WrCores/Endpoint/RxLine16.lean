import WrCores.Endpoint.Line16
import WrCores.Endpoint.RxPcs16

/-!
ep_rx_pcs_16bit on a line of frames and idle codes. The FSM stands behind the decoder's
registers, so that it is followed here with one decoded code at each edge. `Owes` is what
is left to do between two frames: the eof of the last one, behind its timestamp if it has
one, comes out with the idle codes that follow it.
-/

namespace WrCores.Endpoint

open Clocked

namespace RxDecoded16

theorem decode_spd : decode .spd =
    { data := Code16.spd.data, isK := 0b10, isSpdPreamble := true } := by decide

theorem decode_preamble : decode .preamble = { data := 0x5555, isPreamble := true } := by decide

theorem decode_sfd : decode .sfd = { data := 0x55d5, isPreambleSfd := true } := by decide

theorem decode_epd : decode .epd =
    { data := Code16.epd.data, isK := 0b11, isEofExtend := true } := by decide

theorem decode_extend : decode .extend =
    { data := Code16.extend.data, isK := 0b11, isExtend := true } := by decide

theorem decode_error : decode .error = { data := Code16.error.data, isK := 0b11 } := by decide

theorem decode_idle {c : Code16} (idle : c.IsIdle) :
    decode c = { data := c.data, isK := 0b10, isIdle := true } := by
  rcases idle with rfl | rfl <;> decide

theorem decode_oddEnd (data : BitVec 16) : (decode (.oddEnd data)).isEof = true := by
  have low : BitVec.extractLsb' (n := 16) 0 8 (data.extractLsb' 8 8 ++ cK29_7) = cK29_7 :=
    BitVec.extractLsb'_append_eq_right
  simp [decode, Code16.oddEnd, low]

end RxDecoded16

namespace PcsFrame

/-- The last word as it is received: half a word has the delimiter in its low byte. -/
def lastHeard16 (last : Option (BitVec 16 × Bool)) : List FabEvent :=
  match last with
  | some (data, false) => [.word data false]
  | some (data, true) => [.word (data.extractLsb' 8 8 ++ cK29_7) true]
  | none => [.error]

def owed (last : Option (BitVec 16 × Bool)) (stamp : Option (BitVec 32)) : List FabEvent :=
  match last with
  | some _ => endEvents stamp
  | none => []

/-- A frame as it comes out of the receiver. -/
def received16 (f : PcsFrame) (stamp : Option (BitVec 32)) : List FabEvent :=
  .sof :: (f.words.map (.word · false) ++ lastHeard16 f.last ++ owed f.last stamp)

end PcsFrame

/-- Nothing on the fabric. -/
structure InternalFabric.Quiet (fab : InternalFabric) : Prop where
  sof : fab.sof = false
  eof : fab.eof = false
  error : fab.error = false
  dvalid : fab.dvalid = false
  hasRxTimestamp : fab.hasRxTimestamp = false

theorem InternalFabric.Quiet.events {fab : InternalFabric} (quiet : fab.Quiet) : fab.events = [] := by
  simp [InternalFabric.events, quiet.sof, quiet.eof, quiet.error, quiet.dvalid, quiet.hasRxTimestamp]

/-- The receive FSM with the timestamping unit. -/
structure RxCore16 where
  fsm : RxFsm16
  stamps : Stamps
  deriving DecidableEq, Repr

namespace RxCore16

def step (s : RxCore16) (d : RxDecoded16) : RxCore16 :=
  let fsm := s.fsm.step d s.stamps.input
  ⟨fsm, s.stamps.next fsm.fab.sof⟩

def events (s : RxCore16) : List FabEvent := s.fsm.fab.events

/-- What an edge brings to `pcs_fab_o`. -/
def brings (s : RxCore16) (d : RxDecoded16) : List FabEvent := (s.step d).events

/-- Between frames, `pending` words of a timestamp still to come. -/
structure Waits (pending : BitVec 3) (stamps : Stamps) (s : RxCore16) : Prop where
  state : s.fsm.rxState = .noframe
  sof : s.fsm.fab.sof = false
  pending : s.fsm.timestampPending = pending
  stamps : s.stamps = stamps

/-- In a frame, nothing pending. -/
structure Inside (state : RxPcs16State) (stamps : Stamps) (s : RxCore16) : Prop where
  state : s.fsm.rxState = state
  pending : s.fsm.timestampPending = 0#3
  stamps : s.stamps = stamps

section Edge

variable {s : RxCore16} {d : RxDecoded16} {stamps : Stamps} {pending : BitVec 3}

/-- In no frame, and no frame or configuration starts. -/
theorem noframe_step (stamps : Stamps) (f : RxFsm16) (state : f.rxState = .noframe) (spd : d.isSpdPreamble = false)
    (lcr : d.isLcr = false) :
    (f.step d stamps.input).rxState = .noframe ∧
      (f.step d stamps.input).fab = f.insertTimestamp stamps.input.timestamp ∧
      (f.step d stamps.input).timestampPending = f.timestampPending <<< 1 := by
  simp only [RxFsm16.step, state, RxFsm16.noframeStep, spd, lcr, Stamps.input]
  cases d.isIdle <;> simp [state]

theorem insertTimestamp_events (f : RxFsm16) (sof : f.fab.sof = false) (timestamp : BitVec 32) :
    (f.insertTimestamp timestamp).events = dueEvents f.timestampPending timestamp := by
  have some := pending_iff f.timestampPending
  simp only [RxFsm16.insertTimestamp, dueEvents]
  split_ifs <;> simp_all [InternalFabric.events]

theorem Waits.edge (waits : Waits pending stamps s) (spd : d.isSpdPreamble = false)
    (lcr : d.isLcr = false) :
    Waits (pending <<< 1) stamps (s.step d) ∧
      s.brings d = dueEvents pending stamps.input.timestamp := by
  obtain ⟨state, sof, rfl, rfl⟩ := waits
  obtain ⟨state', fab, pending'⟩ := noframe_step s.stamps s.fsm state spd lcr
  have sof' : (s.fsm.insertTimestamp s.stamps.input.timestamp).sof = false := by
    simp only [RxFsm16.insertTimestamp]
    split_ifs <;> exact sof
  refine ⟨⟨state', ?_, pending', ?_⟩, ?_⟩
  · simp [step, fab, sof']
  · simp [step, fab, sof', Stamps.next]
  · simp [brings, events, step, fab, insertTimestamp_events s.fsm sof]

theorem Waits.quiet (waits : Waits 0#3 stamps s) (spd : d.isSpdPreamble = false)
    (lcr : d.isLcr = false) : Waits 0#3 stamps (s.step d) ∧ s.brings d = [] :=
  waits.edge spd lcr

/-- The codes of a preamble, `cntr` the counter's value. -/
structure Preamble (cntr : BitVec 3) (stamps : Stamps) (s : RxCore16) : Prop
    extends Inside .spdPreamble stamps s where
  cntr : s.fsm.preambleCntr = cntr
  quiet : s.fsm.fab.Quiet

theorem Waits.spd_edge (waits : Waits 0#3 stamps s) :
    Preamble 3#3 stamps (s.step (.decode .spd)) ∧ s.brings (.decode .spd) = [] := by
  obtain ⟨state, sof, pending, rfl⟩ := waits
  have starts : s.fsm.step (.decode .spd) s.stamps.input = { s.fsm.clearAn with
      preambleCntr := 3#3
      fab := s.fsm.insertTimestamp s.stamps.input.timestamp
      rxBusy := false
      timestampTrigger := false
      timestampPending := s.fsm.timestampPending <<< 1
      rmonInvalidCode := false
      rxState := .spdPreamble } := by
    simp [RxFsm16.step, state, RxFsm16.noframeStep, RxDecoded16.decode_spd, Stamps.input]
  have fab : (s.fsm.insertTimestamp s.stamps.input.timestamp).Quiet := by
    constructor <;> simp [RxFsm16.insertTimestamp, pending, sof]
  refine ⟨⟨⟨?_, ?_, ?_⟩, ?_, ?_⟩, ?_⟩
  · simp [step, starts]
  · simp [step, starts, pending]
  · simp [step, starts, Stamps.next, fab.sof]
  · simp [step, starts]
  · simpa [step, starts] using fab
  · simp [brings, events, step, starts, fab.events]

theorem Preamble.edge {cntr : BitVec 3} (at_ : Preamble cntr stamps s) (positive : cntr ≠ 0#3) :
    Preamble (cntr - 1#3) stamps (s.step (.decode .preamble)) ∧
      s.brings (.decode .preamble) = [] := by
  obtain ⟨⟨state, pending, rfl⟩, rfl, quiet⟩ := at_
  have counts : s.fsm.step (.decode .preamble) s.stamps.input = { s.fsm.clearAn with
      rxBusy := true
      preambleCntr := s.fsm.preambleCntr - 1#3 } := by
    simp [RxFsm16.step, state, RxFsm16.spdPreambleStep, RxDecoded16.decode_preamble, Stamps.input,
      positive]
  refine ⟨⟨⟨?_, ?_, ?_⟩, ?_, ?_⟩, ?_⟩
  · simp [step, counts, state]
  · simp [step, counts, pending]
  · simp [step, counts, Stamps.next, quiet.sof]
  · simp [step, counts]
  · simpa [step, counts] using quiet
  · simp [brings, events, step, counts, quiet.events]

theorem Preamble.sfd_edge (at_ : Preamble 1#3 stamps s) :
    Inside .payload (stamps.next true) (s.step (.decode .sfd)) ∧ s.brings (.decode .sfd) = [.sof] := by
  obtain ⟨⟨state, pending, rfl⟩, cntr, quiet⟩ := at_
  have opens : s.fsm.step (.decode .sfd) s.stamps.input = { s.fsm.clearAn with
      rxBusy := true
      timestampTrigger := true
      fab := { s.fsm.fab with sof := true }
      rxState := .payload } := by
    simp [RxFsm16.step, state, RxFsm16.spdPreambleStep, RxDecoded16.decode_sfd, Stamps.input, cntr]
  refine ⟨⟨?_, ?_, ?_⟩, ?_⟩
  · simp [step, opens]
  · simp [step, opens, pending]
  · simp [step, opens]
  · simp [brings, events, step, opens, InternalFabric.events, quiet.eof, quiet.error,
      quiet.hasRxTimestamp]

theorem word_edge (data : BitVec 16) (at_ : Inside .payload stamps s) :
    Inside .payload stamps (s.step (.decode (.word data))) ∧
      s.brings (.decode (.word data)) = [.word data false] := by
  obtain ⟨state, pending, rfl⟩ := at_
  have takes : s.fsm.step (.decode (.word data)) s.stamps.input = { s.fsm.clearAn with
      fab := { s.fsm.fab with
        sof := false, eof := false, hasRxTimestamp := false, data := data
        error := false, bytesel := false, dvalid := true } } := by
    simp [RxFsm16.step, state, RxFsm16.payloadStep, RxDecoded16.decode, Code16.word, Stamps.input]
  refine ⟨⟨?_, ?_, ?_⟩, ?_⟩
  · simp [step, takes, state]
  · simp [step, takes, pending]
  · simp [step, takes, Stamps.next]
  · simp [brings, events, step, takes, InternalFabric.events]

/-- Behind the words of a good frame. -/
structure Closing (stamps : Stamps) (s : RxCore16) : Prop extends Inside .extend stamps s where
  sof : s.fsm.fab.sof = false
  eof : s.fsm.fab.eof = false
  error : s.fsm.fab.error = false
  hasRxTimestamp : s.fsm.fab.hasRxTimestamp = false

/-- The end of a frame, with half a word in it or without. -/
theorem end_edge (c : Code16) (ends : (RxDecoded16.decode c).isEof = true ∨
      (RxDecoded16.decode c).isEofExtend = true) (at_ : Inside .payload stamps s) :
    Closing stamps (s.step (.decode c)) ∧
      s.brings (.decode c) =
        if (RxDecoded16.decode c).isEof then [.word c.data true] else [] := by
  obtain ⟨state, pending, rfl⟩ := at_
  have takes : s.fsm.step (.decode c) s.stamps.input = { s.fsm.clearAn with
      fab := { s.fsm.fab with
        sof := false, eof := false, hasRxTimestamp := false, data := c.data
        error := false, bytesel := (RxDecoded16.decode c).isEof
        dvalid := (RxDecoded16.decode c).isEof }
      rxState := .extend } := by
    have clean : (RxDecoded16.decode c).err = false := rfl
    have data : (RxDecoded16.decode c).data = c.data := rfl
    rcases ends with ends | ends <;>
      simp [RxFsm16.step, state, RxFsm16.payloadStep, clean, data, ends, Stamps.input]
  refine ⟨⟨⟨?_, ?_, ?_⟩, ?_, ?_, ?_, ?_⟩, ?_⟩
  · simp [step, takes]
  · simp [step, takes, pending]
  · simp [step, takes, Stamps.next]
  · simp [step, takes]
  · simp [step, takes]
  · simp [step, takes]
  · simp [step, takes]
  · cases odd : (RxDecoded16.decode c).isEof <;>
      simp [brings, events, step, takes, InternalFabric.events, odd]

theorem Closing.extend_edge (at_ : Closing stamps s) :
    Closing stamps (s.step (.decode .extend)) ∧ s.brings (.decode .extend) = [] := by
  obtain ⟨⟨state, pending, rfl⟩, sof, eof, error, stamp⟩ := at_
  have takes : s.fsm.step (.decode .extend) s.stamps.input = { s.fsm.clearAn with
      timestampTrigger := false
      fab := { s.fsm.fab with dvalid := false, eof := false, error := false } } := by
    simp [RxFsm16.step, state, RxFsm16.extendStep, RxDecoded16.decode_extend, Stamps.input]
  refine ⟨⟨⟨?_, ?_, ?_⟩, ?_, ?_, ?_, ?_⟩, ?_⟩
  · simp [step, takes, state]
  · simp [step, takes, pending]
  · simp [step, takes, Stamps.next, sof]
  · simp [step, takes, sof]
  · simp [step, takes]
  · simp [step, takes]
  · simp [step, takes, stamp]
  · simp [brings, events, step, takes, InternalFabric.events, sof, stamp]

/-- The first idle code closes the frame, or announces its timestamp. -/
theorem Closing.idle_edge (at_ : Closing stamps s) (idle : d.isIdle = true)
    (plain : d.isExtend = false) :
    Waits (if stamps.current.isSome then 7#3 else 0#3) stamps (s.step d) ∧
      s.brings d = if stamps.current.isSome then [.hasRxTimestamp] else [.eof] := by
  obtain ⟨⟨state, pending, rfl⟩, sof, eof, error, stamp⟩ := at_
  have takes : s.fsm.step d s.stamps.input = { s.fsm.clearAn with
      timestampTrigger := false
      fab := { s.fsm.fab with
        dvalid := false, eof := !s.stamps.current.isSome, error := false
        hasRxTimestamp := s.stamps.current.isSome }
      timestampPending := if s.stamps.current.isSome then 7#3 else 0#3
      rxState := .noframe } := by
    cases stamped : s.stamps.current.isSome <;>
      simp [RxFsm16.step, state, RxFsm16.extendStep, idle, plain, Stamps.input, stamped]
  refine ⟨⟨?_, ?_, ?_, ?_⟩, ?_⟩
  · simp [step, takes]
  · simp [step, takes, sof]
  · simp [step, takes]
  · simp [step, takes, Stamps.next, sof]
  · cases stamped : s.stamps.current.isSome <;>
      simp [brings, events, step, takes, InternalFabric.events, sof, stamped]

theorem error_edge (at_ : Inside .payload stamps s) :
    Waits 0#3 stamps (s.step (.decode .error)) ∧ s.brings (.decode .error) = [.error] := by
  obtain ⟨state, pending, rfl⟩ := at_
  have takes : s.fsm.step (.decode .error) s.stamps.input = { s.fsm.clearAn with
      fab := { s.fsm.fab with
        sof := false, eof := false, hasRxTimestamp := false, data := Code16.error.data
        error := true, bytesel := false, dvalid := false }
      rmonInvalidCode := false
      rmonRxOverrun := false
      rxState := .noframe } := by
    simp [RxFsm16.step, state, RxFsm16.payloadStep, RxDecoded16.decode_error, Stamps.input]
  refine ⟨⟨?_, ?_, ?_, ?_⟩, ?_⟩
  · simp [step, takes]
  · simp [step, takes]
  · simp [step, takes, pending]
  · simp [step, takes, Stamps.next]
  · simp [brings, events, step, takes, InternalFabric.events]

end Edge

/-! ### Runs -/

section Run

variable {s : RxCore16} {stamps : Stamps}

theorem idle_run (codes : List Code16) (idles : ∀ c ∈ codes, c.IsIdle) (waits : Waits 0#3 stamps s) :
    Waits 0#3 stamps (run step s (codes.map .decode)) ∧
      collect step brings s (codes.map .decode) = [] := by
  induction codes generalizing s with
  | nil => exact ⟨waits, rfl⟩
  | cons c rest ih =>
      have idle := RxDecoded16.decode_idle (idles c (by simp))
      obtain ⟨next, silent⟩ := waits.quiet (d := .decode c) (by simp [idle]) (by simp [idle])
      obtain ⟨there, silent'⟩ := ih (fun c member => idles c (by simp [member])) next
      exact ⟨there, by simp [silent, silent']⟩

/-- Four idle codes are enough to end a frame, with a timestamp or without. -/
theorem closing_run (codes : List Code16) (idles : ∀ c ∈ codes, c.IsIdle) (long : 4 ≤ codes.length)
    (closing : Closing stamps s) :
    Waits 0#3 stamps (run step s (codes.map .decode)) ∧
      collect step brings s (codes.map .decode) = endEvents stamps.current := by
  match codes, long with
  | c₁ :: c₂ :: c₃ :: c₄ :: rest, _ =>
      have first := RxDecoded16.decode_idle (idles c₁ (by simp))
      have second := RxDecoded16.decode_idle (idles c₂ (by simp))
      have third := RxDecoded16.decode_idle (idles c₃ (by simp))
      have fourth := RxDecoded16.decode_idle (idles c₄ (by simp))
      obtain ⟨waits₁, shown₁⟩ := closing.idle_edge (d := .decode c₁) (by simp [first]) (by simp [first])
      cases stamp : stamps.current with
      | none =>
          simp only [stamp, Option.isSome_none, Bool.false_eq_true, if_false] at waits₁ shown₁
          obtain ⟨there, silent⟩ := idle_run (c₂ :: c₃ :: c₄ :: rest)
            (fun c member => idles c (by simp at member ⊢; tauto)) waits₁
          exact ⟨there, by rw [List.map_cons, collect_cons, shown₁, silent]; rfl⟩
      | some timestamp =>
          simp only [stamp, Option.isSome_some, if_true] at waits₁ shown₁
          obtain ⟨waits₂, shown₂⟩ := waits₁.edge (d := .decode c₂) (by simp [second]) (by simp [second])
          obtain ⟨waits₃, shown₃⟩ := waits₂.edge (d := .decode c₃) (by simp [third]) (by simp [third])
          obtain ⟨waits₄, shown₄⟩ := waits₃.edge (d := .decode c₄) (by simp [fourth]) (by simp [fourth])
          obtain ⟨there, silent⟩ := idle_run rest (fun c member => idles c (by simp [member])) waits₄
          refine ⟨there, ?_⟩
          have whole : stamps.input.timestamp = timestamp := by simp [Stamps.input, stamp]
          rw [whole] at shown₂ shown₃ shown₄
          simp only [List.map_cons, collect_cons, shown₁, shown₂, shown₃, shown₄, silent]
          rfl

theorem words_run (words : List (BitVec 16)) (at_ : Inside .payload stamps s) :
    Inside .payload stamps (run step s ((words.map Code16.word).map .decode)) ∧
      collect step brings s ((words.map Code16.word).map .decode) = words.map (.word · false) := by
  induction words generalizing s with
  | nil => exact ⟨at_, rfl⟩
  | cons data rest ih =>
      obtain ⟨next, shown⟩ := word_edge data at_
      obtain ⟨there, shown'⟩ := ih next
      exact ⟨there, by simp only [List.map_cons, collect_cons, shown, shown', List.singleton_append]⟩

/-- Between two frames, `evs` still to come. -/
inductive Owes (evs : List FabEvent) (stamps : Stamps) (s : RxCore16) : Prop where
  | nothing : evs = [] → Waits 0#3 stamps s → Owes evs stamps s
  | frameEnd : evs = endEvents stamps.current → Closing stamps s → Owes evs stamps s

theorem Owes.idle_run {evs : List FabEvent} (owes : Owes evs stamps s) (codes : List Code16)
    (idles : ∀ c ∈ codes, c.IsIdle) (long : evs ≠ [] → 4 ≤ codes.length) :
    Waits 0#3 stamps (run step s (codes.map .decode)) ∧
      collect step brings s (codes.map .decode) = evs := by
  cases owes with
  | nothing none waits => exact none ▸ RxCore16.idle_run codes idles waits
  | frameEnd ends closing =>
      have some : evs ≠ [] := by
        rw [ends]
        cases stamps.current <;> simp [endEvents]
      exact ends ▸ closing_run codes idles (long some) closing

theorem last_run (last : Option (BitVec 16 × Bool)) (at_ : Inside .payload stamps s) :
    Owes (PcsFrame.owed last stamps.current) stamps
        (run step s ((PcsFrame.lastCodes16 last).map .decode)) ∧
      collect step brings s ((PcsFrame.lastCodes16 last).map .decode) = PcsFrame.lastHeard16 last := by
  match last with
  | some (data, false) =>
      obtain ⟨next, shown⟩ := word_edge data at_
      obtain ⟨closing, silent⟩ := end_edge .epd (by simp [RxDecoded16.decode_epd]) next
      refine ⟨.frameEnd rfl closing, ?_⟩
      have even : (RxDecoded16.decode .epd).isEof = false := by simp [RxDecoded16.decode_epd]
      rw [even] at silent
      simp [PcsFrame.lastCodes16, shown, silent, PcsFrame.lastHeard16]
  | some (data, true) =>
      have odd := RxDecoded16.decode_oddEnd data
      obtain ⟨next, shown⟩ := end_edge (.oddEnd data) (Or.inl odd) at_
      obtain ⟨closing, silent⟩ := next.extend_edge
      refine ⟨.frameEnd rfl closing, ?_⟩
      rw [odd] at shown
      simp only [PcsFrame.lastCodes16, List.map_cons, List.map_nil, collect_cons, collect_nil, shown,
        silent]
      rfl
  | none =>
      obtain ⟨waits, shown⟩ := error_edge at_
      obtain ⟨waits, silent⟩ := waits.quiet (d := .decode .error) (by simp [RxDecoded16.decode_error])
        (by simp [RxDecoded16.decode_error])
      obtain ⟨waits, silent'⟩ := waits.quiet (d := .decode .epd) (by simp [RxDecoded16.decode_epd])
        (by simp [RxDecoded16.decode_epd])
      refine ⟨.nothing rfl waits, ?_⟩
      simp [PcsFrame.lastCodes16, shown, silent, silent', PcsFrame.lastHeard16]

theorem frame_run (f : PcsFrame) (waits : Waits 0#3 stamps s) :
    Owes (PcsFrame.owed f.last (stamps.next true).current) (stamps.next true)
        (run step s (f.codes16.map .decode)) ∧
      collect step brings s (f.codes16.map .decode) =
        .sof :: (f.words.map (.word · false) ++ PcsFrame.lastHeard16 f.last) := by
  obtain ⟨at₁, silent₁⟩ := waits.spd_edge
  obtain ⟨at₂, silent₂⟩ := at₁.edge (by decide)
  obtain ⟨at₃, silent₃⟩ := at₂.edge (by decide)
  obtain ⟨inside, shown⟩ := Preamble.sfd_edge at₃
  obtain ⟨inside', words⟩ := words_run f.words inside
  obtain ⟨owes, last⟩ := last_run f.last inside'
  rw [PcsFrame.codes16, List.map_append, List.map_append, run_append, run_append, collect_append,
    collect_append]
  refine ⟨owes, ?_⟩
  simp only [List.map_cons, List.map_nil, collect_cons, collect_nil, run_cons, run_nil, silent₁, silent₂,
    silent₃, shown, words, last]
  rfl

/-- A whole line, and what is then still owed. -/
theorem line_run {g : Nat} {frames : List PcsFrame} {codes : List Code16}
    (line : TxPcs16.Line g frames codes) {evs : List FabEvent} (owes : Owes evs stamps s)
    (enough : evs ≠ [] → 1 ≤ g) (answers : List (Option (BitVec 32)))
    (coming : stamps.coming = answers) (each : answers.length = frames.length) :
    ∃ evs' stamps', Owes evs' stamps' (run step s (codes.map .decode)) ∧
      collect step brings s (codes.map .decode) ++ evs' =
        evs ++ (frames.zip answers).flatMap fun p => PcsFrame.received16 p.1 p.2 := by
  induction line generalizing s stamps evs answers with
  | done => exact ⟨evs, stamps, owes, by simp⟩
  | @frame g f fs idles codes idle line ih =>
      match answers, each with
      | answer :: answers, each =>
          have long : evs ≠ [] → 4 ≤ idles.length := fun some => by
            have := enough some
            have := idle.1
            omega
          obtain ⟨waits, ends⟩ := owes.idle_run idles idle.2 long
          obtain ⟨owes', heard⟩ := frame_run f waits
          have current : (stamps.next true).current = answer := by simp [Stamps.next, coming]
          have positive : 1 ≤ f.gap16 := by
            simp only [PcsFrame.gap16]
            split <;> omega
          obtain ⟨evs', stamps', there, rest⟩ := ih owes' (fun _ => positive) answers
            (by simp [Stamps.next, coming]) (by simpa using each)
          refine ⟨evs', stamps', ?_, ?_⟩
          · rw [List.map_append, List.map_append, run_append, run_append]
            exact there
          · rw [List.map_append, List.map_append, collect_append, collect_append, ends, heard,
              run_append, List.append_assoc, rest, List.zip_cons_cons, List.flatMap_cons, current]
            simp [PcsFrame.received16]

end Run

end RxCore16

end WrCores.Endpoint
