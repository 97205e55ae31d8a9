import WrCores.Endpoint.TxHeaderFrames

/-!
What one edge of ep_tx_header_processor.vhd does in each of its states, and that all of them keep the balance of what
came and what was sent.
-/

namespace WrCores.Endpoint.TxHeader

open Clocked Fabric

section Edge

variable {sel : Bool} {g : Generics} {r : Regs} {s : State} {b : Book} {i : In} {items : List Item}
variable {last owed : List Event} {ws : List Word}

theorem out_step : out sel (s.step g r i) (b.next sel s i) = out sel s b ++ fabEvents sel (s.step g r i).srcFab := rfl

theorem takes_none (valid : s.snkValid i = false) : takes s i = [] := by simp [takes, valid]

theorem takes_some (valid : s.snkValid i = true) : takes s i = [i.wbSnk.word] := by simp [takes, valid]

theorem allEvents_snoc (items : List Item) (item : Item) :
    allEvents sel g r (items ++ [item]) = allEvents sel g r items ++ item.events sel g r := by
  simp [allEvents]

/-- What happens on the sink while the framer is busy with a frame that is complete, or with none. -/
theorem begun_step (begun : Begun sel g r s b last) (cyc : s.snkCycD0 = b.coming.isSome) (frames : Frames s b i)
    (still : ofAdr cWrfOob (b.coming.getD []) = [] → s.snkValid i = false) (state : s.state ≠ .addr)
    (all : users items = b.done.map content) :
    ∃ items' last', users items' = (b.next sel s i).done.map content ∧ pauses items' = pauses items ∧
      allEvents sel g r items' ++ last' = allEvents sel g r items ++ last ∧
      Begun sel g r (s.step g r i) (b.next sel s i) last' := by
  have sofReg : (s.step g r i).sofReg = (s.sofP1 i || s.sofReg) := by
    simp only [State.step, state, if_false]
    cases s.sofP1 i <;> rfl
  rcases begun with ⟨coming, reg, rfl⟩ | ⟨coming, reg, rfl⟩ | ⟨ws, coming, reg, oob, rfl⟩
  · have before : s.snkCycD0 = false := by rw [cyc, coming]; rfl
    have on : s.eofP1 i = false := eof_none before
    have quiet := takes_none (still (by rw [coming]; rfl))
    refine ⟨items, [], by simpa [Book.next, on] using all, rfl, rfl, ?_⟩
    cases rise : i.wbSnk.cyc with
    | true => exact .inr (.inl ⟨by simp [Book.next, rise, coming, quiet],
      by simp [sofReg, State.sofP1, before, rise], rfl⟩)
    | false => exact .inl ⟨by simp [Book.next, rise], by simp [sofReg, State.sofP1, rise, reg], rfl⟩
  · have before : s.snkCycD0 = true := by rw [cyc, coming]; rfl
    obtain ⟨high, on⟩ := frames.goes_on before (by rw [coming]; decide)
    have quiet := takes_none (still (by rw [coming]; rfl))
    exact ⟨items, [], by simpa [Book.next, on] using all, rfl, rfl,
      .inr (.inl ⟨by simp [Book.next, high, coming, quiet], by simp [sofReg, reg], rfl⟩)⟩
  · have before : s.snkCycD0 = true := by rw [cyc, coming]; rfl
    have sof : s.sofP1 i = false := by simp [State.sofP1, before]
    cases high : i.wbSnk.cyc with
    | false =>
        have ends : s.eofP1 i = true := eof_low before high
        refine ⟨items ++ [.user (content ws)], [], ?_, ?_, ?_, .inl ⟨by simp [Book.next, high], ?_, rfl⟩⟩
        · rw [users_snoc, all]
          simp [Book.next, ends, coming, users]
        · rw [pauses_snoc]
          simp [pauses]
        · rw [allEvents_snoc, List.append_nil]
          rfl
        · simp [sofReg, sof, reg]
    | true =>
        have on : s.eofP1 i = false := eof_high high
        have same : content (ws ++ takes s i) = content ws ∧ ofAdr cWrfOob (ws ++ takes s i) ≠ [] := by
          cases valid : s.snkValid i with
          | false => simpa [takes_none valid] using oob
          | true =>
              have follows := frames.word valid
              rw [coming] at follows
              have adr : i.wbSnk.word.adr = cWrfOob := by
                rcases follows with ⟨-, -, none, -⟩ | ⟨-, -, none, -⟩ | ⟨adr, -⟩
                · exact absurd none oob
                · exact absurd none oob
                · exact adr
              rw [takes_some valid, ofAdr_same adr]
              exact ⟨content_oob adr, by simp⟩
        refine ⟨items, _, by simpa [Book.next, on] using all, rfl, rfl, .inr
          (.inr ⟨ws ++ takes s i, ?_, ?_, same.2, ?_⟩)⟩
        · simp [Book.next, high, coming]
        · simp [sofReg, sof, reg]
        · rw [same.1]

/-- What an edge of the run is given. -/
structure Given (sel : Bool) (g : Generics) (r : Regs) (s : State) (b : Book) (i : In) : Prop where
  quiet : Quiet s i
  frames : Frames s b i
  addressed : Addressed g s b i
  sized : sel = true → Sized g r s b i
  asks : Asks s b i
  alone : Alone g r s b i

theorem Given.noError (given : Given sel g r s b i) : s.errorP1 i = false := Follows.noError given.frames.word

def starts (s : State) (i : In) : Bool := s.sofP1 i || s.sofReg || i.fcPauseReq

theorem step_idle (given : Given sel g r s b i) (state : s.state = .idle) : s.txFsm g r i = s.idleStep i := by
  rw [txFsm_quiet given.quiet given.noError (by rw [state]; decide), state]

/-- TXF_DATA leaves the pause handshake and the sof as they are. -/
theorem dataStep_keeps : (s.dataStep g r i).fcPauseReady = s.fcPauseReady ∧
    (s.dataStep g r i).txPauseMode = s.txPauseMode ∧ (s.dataStep g r i).srcFab.sof = s.srcFab.sof := by
  simp only [State.dataStep, State.submits, apply_ite State.fcPauseReady, apply_ite State.txPauseMode,
    apply_ite State.srcFab, ite_self, and_self]

theorem ready_other (given : Given sel g r s b i) (going : s.state ≠ .abort) (state : s.state ≠ .idle) :
    (s.step g r i).fcPauseReady = s.fcPauseReady := by
  have fsm : (s.step g r i).fcPauseReady = (s.txFsm g r i).fcPauseReady := rfl
  rw [fsm, txFsm_quiet given.quiet given.noError going]
  cases phase : s.state with
  | idle => exact absurd phase state
  | abort => exact absurd phase going
  | delayedSof => simp only [State.delayedSofStep]; split <;> rfl
  | addr => simp only [State.addrStep]; split <;> rfl
  | pad => simp only [State.padStep]; split <;> rfl
  | storeTstamp => simp only [State.storeTstampStep]; split <;> rfl
  | gap => simp only [State.gapStep, State.submits, apply_ite State.fcPauseReady, ite_self]
  | data => exact dataStep_keeps.1

theorem ready_idle (given : Given sel g r s b i) (state : s.state = .idle) :
    (s.step g r i).fcPauseReady = (s.fcPauseReady && !starts s i) := by
  have fsm : (s.step g r i).fcPauseReady = (s.txFsm g r i).fcPauseReady := rfl
  rw [fsm, step_idle given state]
  simp only [State.idleStep, given.quiet.txEn, Bool.and_true, starts]
  cases s.sofP1 i || s.sofReg || i.fcPauseReq with
  | false => simp
  | true => simp only [if_true]; split <;> simp

/-- A request is new, and the first of all. -/
theorem req_fresh (hand : Handshake s b) (given : Given sel g r s b i) (req : i.fcPauseReq = true) :
    b.req = false ∧ s.fcPauseReady = true := by
  cases before : b.req with
  | false => exact ⟨rfl, given.alone.raised req before⟩
  | true => exact absurd (hand.req before) ((given.asks.held before).1 req)

theorem req_low (hand : Handshake s b) (given : Given sel g r s b i) (state : s.state ≠ .idle) :
    i.fcPauseReq = false := by
  by_contra req
  exact state (hand.fresh (req_fresh hand given (by simpa using req)).2).state

theorem asked_same (req : i.fcPauseReq = false) : (b.next sel s i).asked = b.asked := by simp [Book.next, req]

theorem handshake_step (hand : Handshake s b) (given : Given sel g r s b i) (going : s.state ≠ .abort) :
    Handshake (s.step g r i) (b.next sel s i) := by
  have fresh : i.fcPauseReq = true → s.fcPauseReady = true := fun req => (req_fresh hand given req).2
  refine ⟨?_, ?_, ?_⟩
  · have high : (s.step g r i).snkCycD0 = i.wbSnk.cyc := rfl
    rw [high]
    cases cyc : i.wbSnk.cyc <;> simp [Book.next, cyc]
  · intro ready
    have before : s.state = .idle := by
      by_contra state
      rw [ready_other given going state] at ready
      exact state (hand.fresh ready).state
    rw [ready_idle given before, Bool.and_eq_true, Bool.not_eq_true'] at ready
    obtain ⟨was, rest⟩ := ready
    have coming := (hand.fresh was).coming
    simp only [starts, Bool.or_eq_false_iff] at rest
    have low : i.wbSnk.cyc = false := by
      have cyc := hand.cyc
      rw [coming] at cyc
      simpa [State.sofP1, cyc] using rest.1.1
    refine ⟨?_, by simp [Book.next, low], ?_⟩
    · have fsm : (s.step g r i).state = (s.txFsm g r i).state := rfl
      rw [fsm, step_idle given before]
      simp [State.idleStep, rest, before]
    · simp [State.step, rest, before]
  · intro req
    have ready := fresh req
    refine ⟨ready, ?_⟩
    have idle := (hand.fresh ready).state
    have asked : i.fcPauseReq = true := req
    rw [ready_idle given idle]
    simp [starts, asked]

/-- While the framer is busy with nothing that comes, an OOB word is all that is accepted. -/
theorem still_stalled (quiet : Quiet s i) (frames : Frames s b i)
    (phase : i.srcDreq = false ∨ s.state = .pad ∨ s.state = .gap ∨ s.state = .storeTstamp)
    (none : (ofAdr cWrfData (b.coming.getD [])).length < 7) : s.snkValid i = false := by
  by_contra valid
  rcases frames.word (by simpa using valid) with ⟨status, -⟩ | ⟨data, -⟩ | ⟨-, long⟩
  · have adr : i.wbSnk.adr ≠ cWrfOob := by
      have status : i.wbSnk.adr = cWrfStatus := status
      rw [status]
      decide
    exact valid (stalled quiet phase adr)
  · have adr : i.wbSnk.adr ≠ cWrfOob := by
      have data : i.wbSnk.adr = cWrfData := data
      rw [data]
      decide
    exact valid (stalled quiet phase adr)
  · omega

/-- Before a frame's OOB words nothing of it has come. -/
theorem Begun.nothing (begun : Begun sel g r s b last) (none : ofAdr cWrfOob (b.coming.getD []) = []) :
    b.coming.getD [] = [] := by
  rcases begun with ⟨coming, -⟩ | ⟨coming, -⟩ | ⟨ws, coming, -, oob, -⟩
  · rw [coming]
    rfl
  · rw [coming]
    rfl
  · rw [coming] at none
    exact absurd none oob

theorem still_begun (given : Given sel g r s b i) (begun : Begun sel g r s b last)
    (phase : i.srcDreq = false ∨ s.state = .pad ∨ s.state = .gap ∨ s.state = .storeTstamp)
    (none : ofAdr cWrfOob (b.coming.getD []) = []) : s.snkValid i = false :=
  still_stalled given.quiet given.frames phase (by rw [begun.nothing none]; decide)

/-- An edge on which the framer sends nothing and turns to nothing new. -/
theorem rests_on (hand : Handshake s b) (given : Given sel g r s b i) (acc : Accounted sel g r s b last owed items)
    (rests : Rests sel g r s b last owed) (still : ofAdr cWrfOob (b.coming.getD []) = [] → s.snkValid i = false)
    (req : i.fcPauseReq = false) (silent : fabEvents sel (s.step g r i).srcFab = [])
    (sof : (s.step g r i).srcFab.sof = false)
    (state : (s.step g r i).state = .idle ∨ (s.step g r i).state = .gap ∨ (s.step g r i).state = .storeTstamp) :
    Balanced sel g r (s.step g r i) (b.next sel s i) := by
  obtain ⟨all, asked, total⟩ := acc
  have other : s.state ≠ .addr := by rcases rests.state with here | here | here <;> rw [here] <;> decide
  obtain ⟨items', last', done, same, events, begun⟩ :=
    begun_step rests.begun hand.cyc given.frames still other all
  refine ⟨items', last', [], ⟨done, ?_, ?_⟩, .inl ⟨state, sof, begun, rfl⟩⟩
  · rw [same, asked, asked_same req]
  · rw [out_step, silent, events, ← total, rests.owed, List.append_nil]

theorem gap_step (hand : Handshake s b) (given : Given sel g r s b i) (acc : Accounted sel g r s b last owed items)
    (rests : Rests sel g r s b last owed) (state : s.state = .gap) :
    Balanced sel g r (s.step g r i) (b.next sel s i) := by
  have fsm : s.txFsm g r i = s.gapStep g r i := by
    rw [txFsm_quiet given.quiet given.noError (by rw [state]; decide), state]
  have fab : (s.step g r i).srcFab =
      { s.srcFab with eof := false, error := false, dvalid := false, bytesel := false } := by
    have here : (s.step g r i).srcFab = (s.txFsm g r i).srcFab := rfl
    rw [here, fsm]
    simp only [State.gapStep, State.submits]
    split_ifs <;> rfl
  refine rests_on hand given acc rests (still_begun given rests.begun (.inr (.inr (.inl state))))
    (req_low hand given (by rw [state]; decide)) ?_ (by rw [fab]; exact rests.sof) ?_
  · rw [fab]
    simp [fabEvents, rests.sof]
  · have here : (s.step g r i).state = (s.txFsm g r i).state := rfl
    rw [here, fsm]
    simp only [State.gapStep, State.submits]
    split_ifs <;> simp [state]

theorem store_step (hand : Handshake s b) (given : Given sel g r s b i) (acc : Accounted sel g r s b last owed items)
    (rests : Rests sel g r s b last owed) (state : s.state = .storeTstamp) :
    Balanced sel g r (s.step g r i) (b.next sel s i) := by
  have fsm : s.txFsm g r i = s.storeTstampStep i := by
    rw [txFsm_quiet given.quiet given.noError (by rw [state]; decide), state]
  have fab : (s.step g r i).srcFab =
      { s.srcFab with eof := false, error := false, dvalid := false, bytesel := false } := by
    have here : (s.step g r i).srcFab = (s.txFsm g r i).srcFab := rfl
    rw [here, fsm]
    simp only [State.storeTstampStep]
    split_ifs <;> rfl
  refine rests_on hand given acc rests (still_begun given rests.begun (.inr (.inr (.inr state))))
    (req_low hand given (by rw [state]; decide)) ?_ (by rw [fab]; exact rests.sof) ?_
  · rw [fab]
    simp [fabEvents, rests.sof]
  · have here : (s.step g r i).state = (s.txFsm g r i).state := rfl
    rw [here, fsm]
    simp only [State.storeTstampStep]
    split_ifs <;> simp [state]

theorem idle_on (hand : Handshake s b) (given : Given sel g r s b i) (acc : Accounted sel g r s b last owed items)
    (rests : Rests sel g r s b last owed) (state : s.state = .idle) (req : i.fcPauseReq = false)
    (waits : starts s i = false ∨ i.srcDreq = false) : Balanced sel g r (s.step g r i) (b.next sel s i) := by
  have step : (s.step g r i).state = .idle ∧ (s.step g r i).srcFab =
      { s.srcFab with sof := false, error := false, eof := false, dvalid := false, bytesel := false } := by
    have here : (s.step g r i).state = (s.txFsm g r i).state ∧ (s.step g r i).srcFab = (s.txFsm g r i).srcFab :=
      ⟨rfl, rfl⟩
    rw [here.1, here.2, step_idle given state]
    rcases waits with calm | dreq
    · have calm : (s.sofP1 i || s.sofReg || i.fcPauseReq) = false := calm
      simp only [State.idleStep, calm, Bool.false_and]
      simp [state]
    · simp only [State.idleStep, given.quiet.txEn, Bool.and_true, dreq]
      cases s.sofP1 i || s.sofReg || i.fcPauseReq <;> simp [state, rests.sof]
  refine rests_on hand given acc rests (fun none => ?_) req (by rw [step.2]; rfl) (by rw [step.2]) (.inl step.1)
  rcases waits with calm | dreq
  · simp only [starts, Bool.or_eq_false_iff] at calm
    rcases rests.begun with ⟨coming, -⟩ | ⟨-, reg, -⟩ | ⟨ws, coming, -, oob, -⟩
    · have cyc := hand.cyc
      rw [coming] at cyc
      have low : i.wbSnk.cyc = false := by simpa [State.sofP1, cyc] using calm.1.1
      simp [State.snkValid, low]
    · exact absurd (calm.1.2.symm.trans reg) (by decide)
    · rw [coming] at none
      exact absurd none oob
  · exact still_begun given rests.begun (.inl dreq) none

theorem idle_pause (hand : Handshake s b) (given : Given sel g r s b i) (acc : Accounted sel g r s b last owed items)
    (rests : Rests sel g r s b last owed) (state : s.state = .idle) (req : i.fcPauseReq = true) :
    Balanced sel g r (s.step g r i) (b.next sel s i) := by
  obtain ⟨all, asked, total⟩ := acc
  obtain ⟨new, ready⟩ := req_fresh hand given req
  have coming := (hand.fresh ready).coming
  have reg := (hand.fresh ready).sofReg
  obtain ⟨inj, dreq, sof⟩ := given.alone.granted req
  have cyc := hand.cyc
  rw [coming] at cyc
  have low : i.wbSnk.cyc = false := by simpa [State.sofP1, cyc] using sof
  have on : s.eofP1 i = false := eof_none cyc
  have nothing : last = [] := by
    rcases rests.begun with ⟨-, -, none⟩ | ⟨-, other, -⟩ | ⟨ws, other, -⟩
    · exact none
    · exact absurd (reg.symm.trans other) (by decide)
    · exact absurd (coming.symm.trans other) (by simp)
  have fsm : s.txFsm g r i = { s with
      err := false, rty := false, txtsuStb := false, bitselD := false, toBeUntagged := false
      fcPauseReady := false, txPauseMode := true, counter := 0, state := .addr
      srcFab := { s.srcFab with error := false, eof := false, dvalid := false, bytesel := false, sof := true } } := by
    rw [step_idle given state]
    simp [State.idleStep, given.quiet.txEn, req, dreq]
  have quanta : (b.next sel s i).asked = b.asked ++ [i.fcPauseDelay] := by simp [Book.next, req, new]
  refine ⟨items ++ [.pause i.fcPauseDelay], [], (pauseWords r i.fcPauseDelay).map plain ++ (zeros 21 ++ [.eof]),
    ⟨?_, ?_, ?_⟩, .inr (.inr (.inl ?_))⟩
  · rw [users_snoc, all]
    simp [Book.next, on, users]
  · rw [pauses_snoc, asked, quanta]
    rfl
  · have shown : fabEvents sel (s.step g r i).srcFab = [.sof] := by
      have here : (s.step g r i).srcFab = (s.txFsm g r i).srcFab := rfl
      rw [here, fsm]
      rfl
    rw [nothing, rests.owed, List.append_nil, List.append_nil] at total
    rw [out_step, shown, allEvents_snoc, total, List.append_nil, List.append_assoc]
    rfl
  · constructor
    case own => intro other; exact absurd (by simp [State.step, fsm]) other
    case owed => exact ⟨i.fcPauseDelay, by rw [quanta, List.getLast?_concat], by simp [State.step, fsm]⟩
    case sofReg => simp [State.step, sof, state, reg]
    case coming => simp [Book.next, low]
    case last => rfl
    all_goals simp [State.step, fsm, State.pauses, inj]

theorem idle_start (hand : Handshake s b) (given : Given sel g r s b i) (acc : Accounted sel g r s b last owed items)
    (rests : Rests sel g r s b last owed) (state : s.state = .idle) (req : i.fcPauseReq = false)
    (start : starts s i = true) (dreq : i.srcDreq = true) : Balanced sel g r (s.step g r i) (b.next sel s i) := by
  obtain ⟨all, asked, total⟩ := acc
  simp only [starts, req, Bool.or_false] at start
  have fsm : s.txFsm g r i = { s with
      err := false, rty := false, txtsuStb := false, bitselD := false, toBeUntagged := false
      fcPauseReady := false, txPauseMode := false, counter := 0, state := .addr
      srcFab := { s.srcFab with error := false, eof := false, dvalid := false, bytesel := false, sof := true } } := by
    rw [step_idle given state]
    simp only [State.idleStep, given.quiet.txEn, req, Bool.or_false, start, Bool.and_true, dreq, if_true]
  -- the cycle has just begun, or was waiting
  have fresh : b.coming.getD [] = [] ∧ last = [] ∧ i.wbSnk.cyc = true ∧ s.eofP1 i = false := by
    have cyc := hand.cyc
    rcases rests.begun with ⟨coming, reg, none⟩ | ⟨coming, -, none⟩ | ⟨ws, coming, reg, -⟩
    · rw [coming] at cyc
      have high : i.wbSnk.cyc = true := by simpa [State.sofP1, cyc, reg] using start
      exact ⟨by rw [coming]; rfl, none, high, eof_none cyc⟩
    · rw [coming] at cyc
      obtain ⟨high, on⟩ := given.frames.goes_on cyc (by rw [coming]; decide)
      exact ⟨by rw [coming]; rfl, none, high, on⟩
    · rw [coming] at cyc
      simp [State.sofP1, cyc, reg] at start
  obtain ⟨nothing, none, high, on⟩ := fresh
  have coming : (b.next sel s i).coming = some (takes s i) := by simp [Book.next, high, nothing]
  have first : s.snkValid i = true → i.wbSnk.word.adr = cWrfStatus := by
    intro valid
    have follows := given.frames.word valid
    rw [nothing] at follows
    rcases follows with ⟨status, -⟩ | ⟨-, before, -⟩ | ⟨-, long⟩
    · exact status
    · exact absurd rfl before
    · exact absurd long (by decide)
  have data : ofAdr cWrfData (takes s i) = [] := by
    cases valid : s.snkValid i with
    | false => rw [takes_none valid]; rfl
    | true =>
        rw [takes_some valid]
        exact ofAdr_other (by rw [first valid]; decide) []
  refine ⟨items, (content (takes s i)).opening sel g r, [], ⟨?_, ?_, ?_⟩, .inr (.inr (.inr (.inl ⟨takes s i, ?_⟩)))⟩
  · rw [all]
    simp [Book.next, on]
  · rw [asked, asked_same req]
  · have shown : fabEvents sel (s.step g r i).srcFab = [.sof] := by
      have here : (s.step g r i).srcFab = (s.txFsm g r i).srcFab := rfl
      rw [here, fsm]
      rfl
    rw [none, rests.owed, List.append_nil, List.append_nil] at total
    rw [out_step, shown, opening_nil sel g r data, total, List.append_nil]
  · constructor
    case coming => exact coming
    case last => rfl
    case owed => rfl
    case own =>
      intro some
      have valid : s.snkValid i = true := by
        by_contra quiet
        rw [takes_none (by simpa using quiet)] at some
        exact some rfl
      have adr : i.wbSnk.adr = cWrfStatus := first valid
      have pause : s.txPauseMode = false := by
        by_contra mode
        exact given.alone.status (by simpa using mode) valid adr
      rw [takes_some valid]
      have stored : (s.step g r i).storedStatus = fUnmarshallWrfStatus i.wbSnk.dat := by
        simp [State.step, State.storeStatus, pause, valid, adr]
      have own : smac ([] ++ [i.wbSnk.word]) = (fUnmarshallWrfStatus i.wbSnk.dat).hasSmac := smac_status adr
      rw [stored]
      exact own.symm
    case short => rw [data]; decide
    case count => rw [data]; simp [State.step, fsm]
    all_goals simp [State.step, fsm]

theorem idle_step (hand : Handshake s b) (given : Given sel g r s b i) (acc : Accounted sel g r s b last owed items)
    (rests : Rests sel g r s b last owed) (state : s.state = .idle) :
    Balanced sel g r (s.step g r i) (b.next sel s i) := by
  cases req : i.fcPauseReq with
  | true => exact idle_pause hand given acc rests state req
  | false =>
      cases start : starts s i with
      | false => exact idle_on hand given acc rests state req (.inl start)
      | true =>
          cases dreq : i.srcDreq with
          | false => exact idle_on hand given acc rests state req (.inr dreq)
          | true => exact idle_start hand given acc rests state req start dreq

theorem zeros_succ (n : Nat) : zeros (n + 1) = .word cWrfData 0 false :: zeros n := rfl

theorem counter_succ {bound : Nat} (small : s.counter.toNat + 1 < bound) (fits : bound ≤ 2 ^ 14) :
    (s.counter + 1).toNat = s.counter.toNat + 1 := by
  have one : (1 : BitVec 14).toNat = 1 := rfl
  rw [BitVec.toNat_add, one]
  exact Nat.mod_eq_of_lt (by omega)

theorem pad_step (hand : Handshake s b) (given : Given sel g r s b i) (acc : Accounted sel g r s b last owed items)
    (pads : Pads sel g r s b last owed) : Balanced sel g r (s.step g r i) (b.next sel s i) := by
  obtain ⟨all, asked, total⟩ := acc
  obtain ⟨n, some, rest, count⟩ := pads.left
  have state := pads.state
  have req := req_low hand given (by rw [state]; decide)
  have fsm : s.txFsm g r i = s.padStep i := by
    rw [txFsm_quiet given.quiet given.noError (by rw [state]; decide), state]
  obtain ⟨items', last', done, same, events, begun⟩ := begun_step (g := g) (r := r) pads.begun hand.cyc given.frames
    (still_begun given pads.begun (.inr (.inl state))) (by rw [state]; decide) all
  have asked' : pauses items' = (b.next sel s i).asked := by rw [same, asked, asked_same req]
  have top : s.counter.toNat < 32 := by
    rw [cMinQframeThr, cMinFrameThr] at count
    split at count <;> omega
  cases dreq : i.srcDreq with
  | false =>
      have next : s.txFsm g r i = { s with srcFab := { s.srcFab with data := 0, dvalid := false, addr := 0 } } := by
        rw [fsm, State.padStep, dreq]
        rfl
      have silent : fabEvents sel (s.step g r i).srcFab = [] := by
        simp [State.step, next, fabEvents, pads.sof, pads.eof, pads.error]
      refine ⟨items', last', owed, ⟨done, asked', ?_⟩, .inr (.inl ?_)⟩
      · rw [out_step, silent, List.append_nil, events, total]
      · constructor
        case begun => exact begun
        case left => exact ⟨n, some, rest, by simpa [State.step, next] using count⟩
        all_goals simp [State.step, next, state, pads.sof, pads.eof, pads.error, pads.bytesel]
  | true =>
      obtain ⟨m, rfl⟩ : ∃ m, n = m + 1 := ⟨n - 1, by omega⟩
      have more : (s.counter + 1).toNat = s.counter.toNat + 1 := counter_succ (by omega) (by decide : 64 ≤ 2 ^ 14)
      have last_iff : (s.counter.toNat + 1 = if s.toBeUntagged then cMinQframeThr else cMinFrameThr) ↔ m = 0 := by
        rw [← count]
        omega
      by_cases zero : m = 0
      · have next : s.txFsm g r i = { s with
            counter := s.counter + 1, state := .gap
            srcFab := { s.srcFab with data := 0, dvalid := true, addr := 0, eof := true } } := by
          rw [fsm, State.padStep, dreq]
          simp only [last_iff, zero]
          rfl
        have shown : fabEvents sel (s.step g r i).srcFab = [.word cWrfData 0 false, .eof] := by
          simp [State.step, next, fabEvents, pads.sof, pads.error, pads.bytesel, cWrfData]
        refine ⟨items', last', [], ⟨done, asked', ?_⟩, .inl ⟨?_, ?_, begun, rfl⟩⟩
        · rw [rest, zero] at total
          rw [out_step, shown, List.append_nil, events, ← total]
          rfl
        · exact .inr (.inl (by simp [State.step, next]))
        · simp [State.step, next, pads.sof]
      · have next : s.txFsm g r i = { s with
            counter := s.counter + 1, state := .pad
            srcFab := { s.srcFab with data := 0, dvalid := true, addr := 0 } } := by
          rw [fsm, State.padStep, dreq]
          simp only [last_iff, zero]
          rfl
        have shown : fabEvents sel (s.step g r i).srcFab = [.word cWrfData 0 false] := by
          simp [State.step, next, fabEvents, pads.sof, pads.eof, pads.error, pads.bytesel, cWrfData]
        refine ⟨items', last', zeros m ++ [.eof], ⟨done, asked', ?_⟩, .inr (.inl ?_)⟩
        · rw [rest, zeros_succ] at total
          rw [out_step, shown, List.append_assoc, events, ← total]
          rfl
        · constructor
          case begun => exact begun
          case left => exact ⟨m, by omega, rfl, by simp only [State.step, next, more]; omega⟩
          all_goals simp [State.step, next, pads.sof, pads.eof, pads.error, pads.bytesel]

/-- The header of a pause frame, word for word. -/
theorem header_pause (pauses : s.pauses g = true) (own : s.counter ≠ 0 → s.storedStatus.hasSmac = false)
    (k : Nat) (small : k < 9) (count : s.counter.toNat = k) :
    s.headerWord g r i (s.counter.setWidth 4) = (pauseWords r i.fcPauseDelay).getD k 0 := by
  have counter : s.counter = BitVec.ofNat 14 k := by
    rw [← count, BitVec.ofNat_toNat, BitVec.setWidth_eq]
  have inj : g.gWithPacketInjection = false := by
    rw [State.pauses, Bool.and_eq_true, Bool.not_eq_true'] at pauses
    exact pauses.2
  rw [counter] at own ⊢
  interval_cases k <;> simp [State.headerWord, pauses, pauseWords, inj, own]

/-- The quanta of a pause under way are on the input. -/
theorem quanta_same {delay : BitVec 16} (given : Given sel g r s b i) (req : i.fcPauseReq = false)
    (quanta : b.asked.getLast? = some delay) : i.fcPauseDelay = delay := by
  have same := given.asks.delay req
  rw [List.getLastD_eq_getLast?, quanta] at same
  exact same.symm

theorem head_sent (heads : Heads g r s b last owed) (req : i.fcPauseReq = false) (given : Given sel g r s b i) :
    owed = plain (s.headerWord g r i (s.counter.setWidth 4)) ::
      (((pauseWords r i.fcPauseDelay).drop (s.counter.toNat + 1)).map plain ++ (zeros 21 ++ [.eof])) := by
  obtain ⟨delay, quanta, rest⟩ := heads.owed
  have same : i.fcPauseDelay = delay := quanta_same given req quanta
  have inside : s.counter.toNat < (pauseWords r delay).length := heads.count
  rw [rest, header_pause heads.pauses heads.own _ heads.count rfl, same, List.drop_eq_getElem_cons inside,
    List.map_cons, List.cons_append, List.getD_eq_getElem?_getD, List.getElem?_eq_getElem inside]
  rfl

/-- Nothing of a user's cycle is accepted while the header goes out. -/
theorem head_quiet (heads : Heads g r s b last owed) (given : Given sel g r s b i) : s.snkValid i = false := by
  have mode : s.txPauseMode = true := by
    have pauses := heads.pauses
    rw [State.pauses, Bool.and_eq_true] at pauses
    exact pauses.1
  by_contra valid
  have valid : s.snkValid i = true := by simpa using valid
  have follows := given.frames.word valid
  rw [heads.coming] at follows
  rcases follows with ⟨status, -⟩ | ⟨-, before, -⟩ | ⟨-, long⟩
  · exact given.alone.status mode valid status
  · exact before rfl
  · exact absurd long (by decide)

theorem head_step (hand : Handshake s b) (given : Given sel g r s b i) (acc : Accounted sel g r s b last owed items)
    (heads : Heads g r s b last owed) : Balanced sel g r (s.step g r i) (b.next sel s i) := by
  obtain ⟨all, asked, total⟩ := acc
  have state := heads.state
  have req := req_low hand given (by rw [state]; decide)
  have quiet := head_quiet heads given
  have pauses := heads.pauses
  have mode : s.txPauseMode = true ∧ g.gWithPacketInjection = false := by
    simpa [State.pauses] using pauses
  have cyc := hand.cyc
  rw [heads.coming] at cyc
  have on : s.eofP1 i = false := eof_none cyc
  have done : users items = (b.next sel s i).done.map content := by simpa [Book.next, on] using all
  have asked' : TxHeader.pauses items = (b.next sel s i).asked := by rw [asked, asked_same req]
  have fsm : s.txFsm g r i = s.addrStep g r i := by
    rw [txFsm_quiet given.quiet given.noError (by rw [state]; decide), state]
  have own : (s.step g r i).storedStatus.hasSmac = false := by
    simp [State.step, State.storeStatus, mode.1]
  have wait : ¬(s.counter = 8 ∧ i.srcDreq = true) → s.sofP1 i = false ∧ i.wbSnk.cyc = false := by
    intro early
    have sof : s.sofP1 i = false := by
      by_contra sof
      exact early (given.alone.header mode.1 state (by simpa using sof))
    exact ⟨sof, by simpa [State.sofP1, cyc] using sof⟩
  cases dreq : i.srcDreq with
  | false =>
      have next : s.txFsm g r i = { s with
          srcFab := { s.srcFab with sof := false, dvalid := false, data := 0, addr := 0 } } := by
        rw [fsm, State.addrStep, dreq]
        rfl
      obtain ⟨sof, low⟩ := wait (by simp [dreq])
      have silent : fabEvents sel (s.step g r i).srcFab = [] := by
        simp [State.step, next, fabEvents, heads.eof, heads.error]
      refine ⟨items, last, owed, ⟨done, asked', ?_⟩, .inr (.inr (.inl ?_))⟩
      · rw [out_step, silent, List.append_nil, total]
      · constructor
        case pauses => simpa [State.step, next, State.pauses] using pauses
        case own => exact fun _ => own
        case coming => simp [Book.next, low]
        case sofReg => simp [State.step, sof, state]
        case count => simpa [State.step, next] using heads.count
        case last => exact heads.last
        case owed =>
          rw [asked_same req]
          simpa [State.step, next] using heads.owed
        all_goals simp [State.step, next, state, heads.eof, heads.error, heads.bytesel, heads.untagged]
  | true =>
      have more : (s.counter + 1).toNat = s.counter.toNat + 1 :=
        counter_succ (Nat.succ_lt_succ heads.count) (by decide)
      have sent := head_sent heads req given
      obtain ⟨delay, quanta, -⟩ := heads.owed
      have same : i.fcPauseDelay = delay := quanta_same given req quanta
      have tag : (if s.counter.setWidth 4 = 6 then State.untags r i.wbSnk.dat else s.toBeUntagged) = false := by
        split
        · rename_i place
          have value := congrArg BitVec.toNat place
          have small := heads.count
          rw [BitVec.toNat_setWidth, Nat.mod_eq_of_lt (by omega)] at value
          exact given.alone.tag mode.1 state (BitVec.eq_of_toNat_eq value)
        · exact heads.untagged
      have next : s.txFsm g r i = { s with
          counter := s.counter + 1
          srcFab := { s.srcFab with
            sof := false, dvalid := true, addr := cWrfData, data := s.headerWord g r i (s.counter.setWidth 4) }
          toBeUntagged := false
          state := if s.counter.toNat < 8 then .addr else .pad } := by
        have place : (if s.counter.setWidth 4 = 5 then
            if !s.txPauseMode || g.gWithPacketInjection then Phase.data else .addr
            else if s.counter.setWidth 4 < 8 then Phase.addr else .pad) =
              if s.counter.toNat < 8 then Phase.addr else .pad := by
          have small := heads.count
          have value : (s.counter.setWidth 4).toNat = s.counter.toNat := by
            rw [BitVec.toNat_setWidth, Nat.mod_eq_of_lt (by omega)]
          have less : s.counter.setWidth 4 < 8 ↔ s.counter.toNat < 8 := by
            rw [BitVec.lt_def, value]
            rfl
          simp only [less, mode, Bool.not_true, Bool.or_self, Bool.false_eq_true, if_false]
          split
          · rename_i five
            have five : s.counter.toNat = 5 := by rw [← value, five]; rfl
            rw [if_pos (by omega)]
          · rfl
        rw [fsm, State.addrStep]
        simp only [dreq, pauses, Bool.or_true, Bool.and_self, if_true, tag, place]
      have shown : fabEvents sel (s.step g r i).srcFab = [plain (s.headerWord g r i (s.counter.setWidth 4))] := by
        simp [State.step, next, fabEvents, heads.eof, heads.error, heads.bytesel, plain]
      have total' : out sel (s.step g r i) (b.next sel s i) ++ (((pauseWords r i.fcPauseDelay).drop
          (s.counter.toNat + 1)).map plain ++ (zeros 21 ++ [.eof])) = allEvents sel g r items ++ last := by
        rw [out_step, shown, ← total, sent, List.append_assoc]
        rfl
      by_cases early : s.counter.toNat < 8
      · obtain ⟨sof, low⟩ := wait (by rintro ⟨eight, -⟩; rw [eight] at early; exact absurd early (by decide))
        refine ⟨items, last, _, ⟨done, asked', total'⟩, .inr (.inr (.inl ?_))⟩
        constructor
        case pauses => simpa [State.step, next, State.pauses] using pauses
        case own => exact fun _ => own
        case coming => simp [Book.next, low]
        case sofReg => simp [State.step, sof, state]
        case count => simp only [State.step, next, more]; omega
        case last => exact heads.last
        case owed =>
          refine ⟨delay, by rw [asked_same req, quanta], ?_⟩
          simp only [State.step, next, more, same]
        all_goals simp [State.step, next, early, heads.eof, heads.error, heads.bytesel]
      · have eight : s.counter.toNat = 8 := by have := heads.count; omega
        rw [eight, show (pauseWords r i.fcPauseDelay).drop 9 = [] from rfl, List.map_nil, List.nil_append] at total'
        refine ⟨items, last, _, ⟨done, asked', total'⟩, .inr (.inl ?_)⟩
        constructor
        case begun =>
          have nothing := takes_none quiet
          cases high : i.wbSnk.cyc with
          | true =>
              exact .inr (.inl ⟨by simp [Book.next, high, heads.coming, nothing],
                by simp [State.step, State.sofP1, cyc, high], heads.last⟩)
          | false =>
              exact .inl ⟨by simp [Book.next, high], by simp [State.step, State.sofP1, high, state], heads.last⟩
        case left =>
          refine ⟨21, by decide, rfl, ?_⟩
          simp only [State.step, next, more, eight]
          rfl
        all_goals simp [State.step, next, early, heads.eof, heads.error, heads.bytesel]

/-- The addresses of a user's frame, word for word. -/
theorem header_user (mode : s.txPauseMode = false) (own : s.storedStatus.hasSmac = smac ws) (k : Nat) (small : k < 6)
    (count : s.counter.toNat = k) :
    s.headerWord g r i (s.counter.setWidth 4) = macWord r (smac ws) k i.wbSnk.dat := by
  have counter : s.counter = BitVec.ofNat 14 k := by
    rw [← count, BitVec.ofNat_toNat, BitVec.setWidth_eq]
  have pauses : s.pauses g = false := by simp [State.pauses, mode]
  rw [counter]
  interval_cases k <;> cases smac : smac ws <;> simp_all [State.headerWord, macWord]

theorem lead_step (hand : Handshake s b) (given : Given sel g r s b i) (acc : Accounted sel g r s b last owed items)
    (leads : Leads sel g r s b last owed ws) : Balanced sel g r (s.step g r i) (b.next sel s i) := by
  obtain ⟨all, asked, total⟩ := acc
  have state := leads.state
  have req := req_low hand given (by rw [state]; decide)
  have mode := leads.txPauseMode
  have pauses : s.pauses g = false := by simp [State.pauses, mode]
  have small := leads.short
  have cyc : s.snkCycD0 = true := by rw [hand.cyc, leads.coming]; rfl
  have sof : s.sofP1 i = false := by simp [State.sofP1, cyc]
  obtain ⟨high, on⟩ := given.frames.goes_on cyc (by rw [leads.coming, Option.getD_some]; omega)
  have done : users items = (b.next sel s i).done.map content := by simpa [Book.next, on] using all
  have asked' : TxHeader.pauses items = (b.next sel s i).asked := by rw [asked, asked_same req]
  have coming : (b.next sel s i).coming = some (ws ++ takes s i) := by simp [Book.next, high, leads.coming]
  have fsm : s.txFsm g r i = s.addrStep g r i := by
    rw [txFsm_quiet given.quiet given.noError (by rw [state]; decide), state]
  rw [leads.owed, leads.last, List.append_nil] at total
  by_cases word : s.snkValid i = true ∧ i.wbSnk.adr = cWrfData
  · obtain ⟨valid, data⟩ := word
    have dreq : i.srcDreq = true := by
      by_contra low
      have stall := stalled given.quiet (.inl (by simpa using low)) (by rw [data]; decide)
      exact absurd (stall.symm.trans valid) (by decide)
    have follows := given.frames.word valid
    rw [leads.coming, Option.getD_some] at follows
    obtain ⟨status, even, lone⟩ : ofAdr cWrfStatus ws ≠ [] ∧ (∀ v ∈ ofAdr cWrfData ws, odd v = false) ∧
        (odd i.wbSnk.word = true → 6 ≤ (ofAdr cWrfData ws).length) := by
      rcases follows with ⟨other, -⟩ | ⟨-, status, -, even, lone⟩ | ⟨-, long⟩
      · exact absurd (data.symm.trans other) (by decide)
      · exact ⟨status, even, lone⟩
      · omega
    have full : odd i.wbSnk.word = false := by
      by_contra odd
      have := lone (by simpa using odd)
      omega
    have more : (s.counter + 1).toNat = s.counter.toNat + 1 :=
      counter_succ (by rw [leads.count]; omega : _ < 8) (by decide)
    have count := leads.count
    have value : (s.counter.setWidth 4).toNat = s.counter.toNat := by
      rw [BitVec.toNat_setWidth, Nat.mod_eq_of_lt (by omega)]
    have five : s.counter.setWidth 4 = 5 ↔ s.counter.toNat = 5 := by
      rw [← BitVec.toNat_inj, value]
      rfl
    have less : s.counter.setWidth 4 < 8 := by
      rw [BitVec.lt_def, value]
      exact (by omega : s.counter.toNat < 8)
    have six : s.counter.setWidth 4 ≠ 6 := by
      rw [Ne, ← BitVec.toNat_inj, value]
      exact (by omega : s.counter.toNat ≠ 6)
    have next : s.txFsm g r i = { s with
        counter := s.counter + 1
        srcFab := { s.srcFab with
          sof := false, dvalid := true, addr := cWrfData, data := macWord r (smac ws) s.counter.toNat i.wbSnk.dat }
        state := if s.counter.toNat = 5 then .data else .addr } := by
      have header := header_user (g := g) (r := r) (i := i) mode (leads.own status) s.counter.toNat (by omega) rfl
      rw [fsm, State.addrStep, header]
      simp only [dreq, valid, data, five, less, six, mode, beq_self_eq_true, Bool.and_self, Bool.true_or, if_true,
        if_false, Bool.not_false]
    have shown : fabEvents sel (s.step g r i).srcFab =
        [.word cWrfData (macWord r (smac ws) s.counter.toNat i.wbSnk.dat) false] := by
      simp [State.step, next, fabEvents, leads.eof, leads.error, leads.bytesel]
    have total' : out sel (s.step g r i) (b.next sel s i) ++ [] =
        allEvents sel g r items ++ (content (ws ++ [i.wbSnk.word])).opening sel g r := by
      rw [out_step, shown, List.append_nil, total, opening_data sel g r data even, List.append_assoc, count]
      simp only [Content.wordEvent, full, Bool.and_false]
      rfl
    have longer : (ofAdr cWrfData (ws ++ [i.wbSnk.word])).length = (ofAdr cWrfData ws).length + 1 := by
      rw [ofAdr_same data, List.length_append]
      rfl
    rw [takes_some valid] at coming
    refine ⟨items, _, [], ⟨done, asked', total'⟩, .inr (.inr (.inr ?_))⟩
    by_cases last : s.counter.toNat = 5
    · refine .inr ⟨ws ++ [i.wbSnk.word], ?_⟩
      constructor
      case coming => exact coming
      case count => rw [longer]; simp only [State.step, next, more]; omega
      case long => rw [longer]; omega
      case untags => rw [longer]; omega
      case last => rfl
      case owed => rfl
      case sofReg => simp [State.step, sof, state]
      all_goals simp [State.step, next, last, leads.error]
    · refine .inl ⟨ws ++ [i.wbSnk.word], ?_⟩
      constructor
      case coming => exact coming
      case own =>
        intro _
        have kept : (s.step g r i).storedStatus = s.storedStatus := by
          simp [State.step, State.storeStatus, mode, data, cWrfData, cWrfStatus]
        rw [kept, leads.own status, smac_data data]
      case count => rw [longer]; simp only [State.step, next, more]; omega
      case short => rw [longer]; omega
      case last => rfl
      case owed => rfl
      all_goals simp [State.step, next, last, mode, leads.eof, leads.error, leads.bytesel]
  · have none : (s.snkValid i && i.wbSnk.adr == cWrfData) = false := by
      rw [← Bool.not_eq_true, Bool.and_eq_true, beq_iff_eq]
      exact word
    have next : s.txFsm g r i = { s with
        srcFab := { s.srcFab with sof := false, dvalid := false, data := 0, addr := 0 } } := by
      rw [fsm, State.addrStep]
      simp only [none, pauses, Bool.or_self, Bool.and_false]
      rfl
    have silent : fabEvents sel (s.step g r i).srcFab = [] := by
      simp [State.step, next, fabEvents, leads.eof, leads.error]
    -- what is accepted now is a STATUS word, in front of all DATA words
    have grown : ofAdr cWrfData (ws ++ takes s i) = ofAdr cWrfData ws ∧
        (content (ws ++ takes s i)).opening sel g r = (content ws).opening sel g r ∧
        (ofAdr cWrfStatus (ws ++ takes s i) ≠ [] → (s.step g r i).storedStatus.hasSmac = smac (ws ++ takes s i)) := by
      cases valid : s.snkValid i with
      | false =>
          rw [takes_none valid, List.append_nil]
          refine ⟨rfl, rfl, fun some => ?_⟩
          have kept : (s.step g r i).storedStatus = s.storedStatus := by
            simp [State.step, State.storeStatus, mode, valid]
          rw [kept, leads.own some]
      | true =>
          have follows := given.frames.word valid
          rw [leads.coming, Option.getD_some] at follows
          rcases follows with ⟨status, front, -⟩ | ⟨data, -⟩ | ⟨-, long⟩
          · have same : ofAdr cWrfData (ws ++ [i.wbSnk.word]) = ofAdr cWrfData ws :=
              ofAdr_other (by rw [status]; decide) ws
            have adr : i.wbSnk.adr = cWrfStatus := status
            rw [takes_some valid]
            refine ⟨same, ?_, fun _ => ?_⟩
            · rw [opening_nil sel g r (same.trans front), opening_nil sel g r front]
            · rw [smac_status status]
              simp [State.step, State.storeStatus, mode, valid, adr, SourceOut.word]
          · exact absurd ⟨valid, data⟩ word
          · omega
    refine ⟨items, (content (ws ++ takes s i)).opening sel g r, [], ⟨done, asked', ?_⟩,
      .inr (.inr (.inr (.inl ⟨ws ++ takes s i, ?_⟩)))⟩
    · rw [out_step, silent, List.append_nil, List.append_nil, total, grown.2.1]
    · constructor
      case coming => exact coming
      case own => exact grown.2.2
      case count => rw [grown.1]; simpa [State.step, next] using leads.count
      case short => rw [grown.1]; exact small
      case last => rfl
      case owed => rfl
      all_goals simp [State.step, next, state, mode, leads.eof, leads.error, leads.bytesel]

/-- Behind the seventh word `needs_padding` is whether the frame is too short. -/
theorem needs_limit (flows : Flows sel g r s b last owed ws) (long : 7 ≤ (ofAdr cWrfData ws).length) :
    s.needsPadding g = decide ((ofAdr cWrfData ws).length < limit g r (ofAdr cWrfData ws)) := by
  rw [Bool.eq_iff_iff, decide_eq_true_eq]
  simp only [State.needsPadding, flows.count, flows.untags long, limit, cMinQframeThr, cMinFrameThr]
  cases tagged r (ofAdr cWrfData ws) <;> cases g.gRuntPadding <;> simp
  omega

theorem limit_short (long : 7 ≤ (ofAdr cWrfData ws).length) (flows : Flows sel g r s b last owed ws)
    (short : (ofAdr cWrfData ws).length < limit g r (ofAdr cWrfData ws)) :
    limit g r (ofAdr cWrfData ws) = if s.toBeUntagged then cMinQframeThr else cMinFrameThr := by
  rw [flows.untags long, limit] at *
  split
  · rfl
  · rename_i other
    rw [if_neg other] at short
    split at short
    · rename_i runt
      rw [if_pos runt]
    · omega

/-- The padding that follows a frame's words. -/
theorem flow_pads (flows : Flows sel g r s b last owed ws) (long : 7 ≤ (ofAdr cWrfData ws).length)
    (padding : s.needsPadding g = true) :
    let n := limit g r (ofAdr cWrfData ws) - (ofAdr cWrfData ws).length
    0 < n ∧ s.counter.toNat + n = if s.toBeUntagged then cMinQframeThr else cMinFrameThr := by
  rw [needs_limit flows long, decide_eq_true_eq] at padding
  refine ⟨by omega, ?_⟩
  rw [← limit_short long flows padding, flows.count]
  omega

theorem step_data (given : Given sel g r s b i) (state : s.state = .data) : s.txFsm g r i = s.dataStep g r i := by
  rw [txFsm_quiet given.quiet given.noError (by rw [state]; decide), state]

/-- The frame's cycle ends. -/
theorem flow_end (given : Given sel g r s b i) (acc : Accounted sel g r s b last owed items)
    (flows : Flows sel g r s b last owed ws) (req : i.fcPauseReq = false) (ends : s.eofP1 i = true) :
    Balanced sel g r (s.step g r i) (b.next sel s i) := by
  obtain ⟨all, asked, total⟩ := acc
  have long : 7 ≤ (ofAdr cWrfData ws).length := by
    have long := given.frames.ends ends
    rwa [flows.coming, Option.getD_some] at long
  have low : i.wbSnk.cyc = false := by
    rw [State.eofP1, Bool.and_eq_true, Bool.not_eq_true'] at ends
    exact ends.2
  have quiet : s.snkValid i = false := by simp [State.snkValid, low]
  have sofReg : (s.step g r i).sofReg = false := by simp [State.step, State.sofP1, low, flows.state, flows.sofReg]
  have coming : (b.next sel s i).coming = none := by simp [Book.next, low]
  have asked' : TxHeader.pauses (items ++ [.user (content ws)]) = (b.next sel s i).asked := by
    rw [pauses_snoc, asked, asked_same req]
    simp [pauses]
  have done : users (items ++ [.user (content ws)]) = (b.next sel s i).done.map content := by
    rw [users_snoc, all]
    simp [Book.next, ends, flows.coming, users]
  have six : s.counter ≠ 6 := by
    intro six
    have count := flows.count
    rw [six] at count
    have value : (6 : BitVec 14).toNat = 6 := rfl
    omega
  rw [flows.owed, flows.last, List.append_nil] at total
  cases padding : s.needsPadding g with
  | true =>
      have next : s.txFsm g r i = { s with
          state := .pad
          bitselD := s.bitselD || !i.wbSnk.sel.getLsbD 0
          srcFab := { s.srcFab with eof := false, dvalid := false, data := 0, bytesel := false, addr := 0 } } := by
        rw [step_data given flows.state, State.dataStep]
        simp only [quiet, padding, ends, six, Bool.false_and, Bool.and_false, Bool.not_true, Bool.or_true,
          Bool.and_self, Bool.false_eq_true, if_true, if_false]
      have silent : fabEvents sel (s.step g r i).srcFab = [] := by
        simp [State.step, next, fabEvents, flows.sof, flows.error]
      obtain ⟨some, left⟩ := flow_pads flows long padding
      refine ⟨items ++ [.user (content ws)], [],
        zeros (limit g r (ofAdr cWrfData ws) - (ofAdr cWrfData ws).length) ++ [.eof],
        ⟨done, asked', ?_⟩, .inr (.inl ?_)⟩
      · rw [out_step, silent, List.append_nil, total, allEvents_snoc, List.append_nil, List.append_assoc]
        rfl
      · constructor
        case begun => exact .inl ⟨coming, sofReg, rfl⟩
        case left => exact ⟨_, some, rfl, by simpa [State.step, next] using left⟩
        all_goals simp [State.step, next, flows.sof, flows.error]
  | false =>
      have next : (s.txFsm g r i).srcFab = { s.srcFab with
            eof := true, dvalid := false, data := 0, bytesel := false, addr := i.wbSnk.adr } ∧
          ((s.txFsm g r i).state = .idle ∨ (s.txFsm g r i).state = .gap ∨ (s.txFsm g r i).state = .storeTstamp) := by
        rw [step_data given flows.state]
        simp only [State.dataStep, State.submits, quiet, padding, ends, Bool.false_and, Bool.and_false,
          Bool.not_false, Bool.and_true, Bool.false_eq_true, if_false, if_true]
        split_ifs <;> simp
      have shown : fabEvents sel (s.step g r i).srcFab = [.eof] := by
        simp [State.step, next.1, fabEvents, flows.sof, flows.error]
      have none : limit g r (ofAdr cWrfData ws) - (ofAdr cWrfData ws).length = 0 := by
        rw [needs_limit flows long, decide_eq_false_iff_not] at padding
        omega
      refine ⟨items ++ [.user (content ws)], [], [], ⟨done, asked', ?_⟩, .inl
        ⟨next.2, ?_, .inl ⟨coming, sofReg, rfl⟩, rfl⟩⟩
      · rw [out_step, shown, List.append_nil, List.append_nil, total, allEvents_snoc, List.append_assoc]
        simp only [Item.events, Content.events, content, none, zeros, List.replicate_zero, List.nil_append]
      · simp [State.step, next.1, flows.sof]

/-- A cycle of TXF_DATA in which the frame goes on. -/
theorem dataStep_on (state : s.state = .data) (on : s.eofP1 i = false) :
    let word := s.snkValid i && i.wbSnk.adr == cWrfData
    let padding := s.needsPadding g
    s.dataStep g r i = { s with
      counter := if word then s.counter + 1 else s.counter
      toBeUntagged := if s.counter = 6 then State.untags r i.wbSnk.dat else s.toBeUntagged
      bitselD := s.bitselD || !i.wbSnk.sel.getLsbD 0
      srcFab := { s.srcFab with
        eof := false
        dvalid := word
        data := if word then i.wbSnk.dat else 0
        bytesel := word && !i.wbSnk.sel.getLsbD 0 && !padding
        addr := if padding then 0 else i.wbSnk.adr }
      state := if i.wbSnk.adr == cWrfOob && padding then .pad else .data } := by
  simp only [State.dataStep, on, Bool.or_false, Bool.false_and, Bool.false_eq_true, if_false]
  cases i.wbSnk.adr == cWrfOob && s.needsPadding g <;> simp [state]

theorem tagged_snoc (data : List Word) (w : Word) (long : 6 ≤ data.length) :
    tagged r (data ++ [w]) = if data.length = 6 then State.untags r w.dat else tagged r data := by
  split
  · rename_i six
    rw [tagged, List.getElem?_append_right (by omega), six]
    rfl
  · rw [tagged, List.getElem?_append_left (by omega)]
    rfl

/-- The frame's cycle goes on. -/
theorem flow_on (given : Given sel g r s b i) (cyc : s.snkCycD0 = b.coming.isSome)
    (acc : Accounted sel g r s b last owed items) (flows : Flows sel g r s b last owed ws)
      (req : i.fcPauseReq = false)
    (on : s.eofP1 i = false) : Balanced sel g r (s.step g r i) (b.next sel s i) := by
  obtain ⟨all, asked, total⟩ := acc
  have before : s.snkCycD0 = true := by rw [cyc, flows.coming]; rfl
  have high : i.wbSnk.cyc = true := by simpa [State.eofP1, before] using on
  have sofReg : (s.step g r i).sofReg = false := by
    simp [State.step, State.sofP1, before, flows.state, flows.sofReg]
  have done : users items = (b.next sel s i).done.map content := by simpa [Book.next, on] using all
  have asked' : TxHeader.pauses items = (b.next sel s i).asked := by rw [asked, asked_same req]
  have coming : (b.next sel s i).coming = some (ws ++ takes s i) := by simp [Book.next, high, flows.coming]
  have next := (step_data given flows.state).trans (dataStep_on flows.state on)
  have count := flows.count
  have long := flows.long
  have six : s.counter = 6 ↔ (ofAdr cWrfData ws).length = 6 := by
    rw [← BitVec.toNat_inj, count]
    rfl
  have follows : s.snkValid i = true → Follows ws i.wbSnk.word := by
    intro valid
    have follows := given.frames.word valid
    rwa [flows.coming, Option.getD_some] at follows
  rw [flows.owed, flows.last, List.append_nil] at total
  by_cases word : s.snkValid i = true ∧ i.wbSnk.adr = cWrfData
  · obtain ⟨valid, data⟩ := word
    obtain ⟨even, lone⟩ : (∀ v ∈ ofAdr cWrfData ws, odd v = false) ∧ ofAdr cWrfOob ws = [] := by
      rcases follows valid with ⟨other, -⟩ | ⟨-, -, none, even, -⟩ | ⟨other, -⟩
      · exact absurd (data.symm.trans other) (by decide)
      · exact ⟨even, none⟩
      · exact absurd (data.symm.trans other) (by decide)
    have small : s.counter.toNat + 1 < 2 ^ 14 := by
      have small := given.addressed.short valid data
      rwa [flows.coming, Option.getD_some, ← count] at small
    have more : (s.counter + 1).toNat = s.counter.toNat + 1 := counter_succ small (Nat.le_refl _)
    have longer : (ofAdr cWrfData (ws ++ [i.wbSnk.word])).length = (ofAdr cWrfData ws).length + 1 := by
      rw [ofAdr_same data, List.length_append]
      rfl
    have flag : (sel && (odd i.wbSnk.word && !s.needsPadding g)) = (sel && (decide
        (limit g r (ofAdr cWrfData ws ++ [i.wbSnk.word]) ≤ (ofAdr cWrfData ws).length + 1) && odd i.wbSnk.word)) := by
      cases look : sel with
      | false => rfl
      | true =>
          cases half : odd i.wbSnk.word with
          | false => simp
          | true =>
              have size := given.sized look valid data half flows.state
              simp only [flows.coming, Option.getD_some, List.length_append, List.length_singleton] at size
              rw [size, Bool.true_and, Bool.and_true, Bool.true_and, Bool.true_and, ← decide_not]
              exact decide_eq_decide.2 Nat.not_lt
    have mac : macWord r (smac ws) (ofAdr cWrfData ws).length i.wbSnk.dat = i.wbSnk.dat := by
      have past : (ofAdr cWrfData ws).length ≠ 3 ∧ (ofAdr cWrfData ws).length ≠ 4 ∧
        (ofAdr cWrfData ws).length ≠ 5 := by
        omega
      rw [macWord, if_neg past.1, if_neg past.2.1, if_neg past.2.2, ite_self]
    have shown : fabEvents sel (s.step g r i).srcFab = [(content ws).wordEvent sel r
        (decide (limit g r (ofAdr cWrfData ws ++ [i.wbSnk.word]) ≤ (ofAdr cWrfData ws).length + 1))
        (ofAdr cWrfData ws).length i.wbSnk.word] := by
      have fab : (s.step g r i).srcFab = (s.txFsm g r i).srcFab := rfl
      have addr : (if s.needsPadding g = true then 0 else cWrfData) = cWrfData := ite_self _
      have half : (!i.wbSnk.sel.getLsbD 0) = odd i.wbSnk.word := rfl
      have dat : (content ws).hasSmac = smac ws ∧ i.wbSnk.word.dat = i.wbSnk.dat := ⟨rfl, rfl⟩
      rw [fab, next, Content.wordEvent, ← flag, dat.1, dat.2, mac]
      simp only [fabEvents, valid, data, half, addr, flows.sof, flows.error, beq_self_eq_true, Bool.and_self,
        Bool.true_and, if_true, Bool.false_eq_true, if_false, List.nil_append, List.append_nil]
    have total' : out sel (s.step g r i) (b.next sel s i) ++ [] =
        allEvents sel g r items ++ (content (ws ++ [i.wbSnk.word])).opening sel g r := by
      rw [out_step, shown, List.append_nil, total, opening_data sel g r data even, List.append_assoc]
    rw [takes_some valid] at coming
    refine ⟨items, _, [], ⟨done, asked', total'⟩, .inr (.inr (.inr (.inr ⟨ws ++ [i.wbSnk.word], ?_⟩)))⟩
    constructor
    case coming => exact coming
    case count =>
      rw [longer]
      simp only [State.step, next, valid, data, beq_self_eq_true, Bool.and_self, if_true, more, count]
    case long => rw [longer]; omega
    case untags =>
      intro _
      rw [ofAdr_same data, tagged_snoc _ _ long]
      have tag : (s.step g r i).toBeUntagged = if s.counter =
        6 then State.untags r i.wbSnk.dat else s.toBeUntagged := by
        simp only [State.step, next]
      rw [tag]
      simp only [six]
      split
      · rfl
      · exact flows.untags (by omega)
    case last => rfl
    case owed => rfl
    case sofReg => exact sofReg
    all_goals simp [State.step, next, data, flows.sof, flows.error, cWrfData, cWrfOob]
  · have none : (s.snkValid i && i.wbSnk.adr == cWrfData) = false := by
      rw [← Bool.not_eq_true, Bool.and_eq_true, beq_iff_eq]
      exact word
    rw [none] at next
    have silent : fabEvents sel (s.step g r i).srcFab = [] := by
      have fab : (s.step g r i).srcFab = (s.txFsm g r i).srcFab := rfl
      rw [fab, next]
      simp [fabEvents, flows.sof, flows.error]
    have total' : out sel (s.step g r i) (b.next sel s i) = allEvents sel g r items ++
      (content ws).opening sel g r := by
      rw [out_step, silent, List.append_nil, total]
    -- only OOB words are left
    have oob : s.snkValid i = true → i.wbSnk.word.adr = cWrfOob ∧ 7 ≤ (ofAdr cWrfData ws).length := by
      intro valid
      rcases follows valid with ⟨-, front, -⟩ | ⟨data, -⟩ | oob
      · rw [front] at long
        exact absurd long (by decide)
      · exact absurd ⟨valid, data⟩ word
      · exact oob
    have same : content (ws ++ takes s i) = content ws := by
      cases valid : s.snkValid i with
      | false => rw [takes_none valid, List.append_nil]
      | true => rw [takes_some valid, content_oob (oob valid).1]
    have data : ofAdr cWrfData (ws ++ takes s i) = ofAdr cWrfData ws := congrArg Content.data same
    have tag : 7 ≤ (ofAdr cWrfData ws).length → (s.step g r i).toBeUntagged = s.toBeUntagged := by
      intro seven
      simp only [State.step, next, six]
      rw [if_neg (by omega)]
    cases stop : i.wbSnk.adr == cWrfOob && s.needsPadding g with
    | false =>
        refine ⟨items, (content ws).opening sel g r, [], ⟨done, asked', by rw [total', List.append_nil]⟩,
          .inr (.inr (.inr (.inr ⟨ws ++ takes s i, ?_⟩)))⟩
        constructor
        case coming => exact coming
        case count => rw [data]; simpa [State.step, next] using count
        case long => rw [data]; exact long
        case untags => rw [data]; exact fun seven => (tag seven).trans (flows.untags seven)
        case last => rw [same]
        case owed => rfl
        case sofReg => exact sofReg
        case state => simp only [State.step, next, stop]; rfl
        all_goals simp [State.step, next, flows.sof, flows.error]
    | true =>
        rw [Bool.and_eq_true, beq_iff_eq] at stop
        obtain ⟨adr, padding⟩ := stop
        have valid : s.snkValid i = true := by
          rcases given.addressed.adr flows.state padding adr with valid | ends
          · exact valid
          · exact absurd (on.symm.trans ends) (by decide)
        obtain ⟨oobAdr, seven⟩ := oob valid
        obtain ⟨some, left⟩ := flow_pads flows seven padding
        refine ⟨items, (content ws).events sel g r, zeros
          (limit g r (ofAdr cWrfData ws) - (ofAdr cWrfData ws).length) ++
          [.eof], ⟨done, asked', ?_⟩, .inr (.inl ?_)⟩
        · rw [total', List.append_assoc]
          rfl
        · constructor
          case begun =>
            refine .inr (.inr ⟨ws ++ takes s i, coming, sofReg, ?_, by rw [same]⟩)
            rw [takes_some valid, ofAdr_same oobAdr]
            simp
          case left =>
            refine ⟨_, some, rfl, ?_⟩
            rw [tag seven]
            simpa [State.step, next] using left
          all_goals simp [State.step, next, adr, padding, flows.sof, flows.error]

theorem kept_step (kept : Kept sel g r s b) (given : Given sel g r s b i) :
    Kept sel g r (s.step g r i) (b.next sel s i) := by
  obtain ⟨hand, items, last, owed, acc, moves⟩ := kept
  have going : s.state ≠ .abort := by
    rcases moves with rests | pads | heads | ⟨ws, leads⟩ | ⟨ws, flows⟩
    · rcases rests.state with here | here | here <;> rw [here] <;> decide
    · rw [pads.state]; decide
    · rw [heads.state]; decide
    · rw [leads.state]; decide
    · rw [flows.state]; decide
  refine ⟨handshake_step hand given going, ?_⟩
  rcases moves with rests | pads | heads | ⟨ws, leads⟩ | ⟨ws, flows⟩
  · rcases rests.state with idle | gap | store
    · exact idle_step hand given acc rests idle
    · exact gap_step hand given acc rests gap
    · exact store_step hand given acc rests store
  · exact pad_step hand given acc pads
  · exact head_step hand given acc heads
  · exact lead_step hand given acc leads
  · have req := req_low hand given (by rw [flows.state]; decide)
    cases ends : s.eofP1 i with
    | true => exact flow_end given acc flows req ends
    | false => exact flow_on given hand.cyc acc flows req ends

end Edge

end WrCores.Endpoint.TxHeader
