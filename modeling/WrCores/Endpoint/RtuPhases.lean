import WrCores.Endpoint.RtuFrames

/-!
The phases of a frame in the head of the receive path, with the pulses each of them still owes, and the
cycles that end a frame: behind its header, at its end and with an error.
-/

namespace WrCores.Endpoint.RxHead

open Clocked VlanUnit

variable {regs : VlanRegs} {s : RxHead} {i : RxHeadIn} {f : Frame}

/-! ### The phases of a frame -/

/-- A frame is in the VLAN unit, which shows neither its end nor an error. -/
structure Flows (s : RxHead) (f : Frame) : Prop where
  live : f.ended = false
  sound : f.failed = false
  eof : s.vlan.src.eof = false
  error : s.vlan.src.error = false

/-- Fewer than seven words. -/
structure Head (s : RxHead) (f : Frame) : Prop extends Flows s f where
  state : s.vlan.state = .data
  short : f.words.length ≤ 6
  young : f.settled = 0
  hdr : s.vlan.hdrOffset = oneHot f.words.length
  untagged : s.vlan.isTagged = false ∧ s.vlan.isTagInserted = false
  blank : s.vlan.tagDone = false ∧ s.vlan.vid = 0 ∧ s.vlan.tclass = 0
  gathered : ∃ m, f.words.length = m + s.vlan.src.dvalid.toNat ∧ Gathered s f m ∧
    (s.vlan.src.dvalid = true → s.vlan.src.data = f.words.getD m 0)
  basic : s.rtu.validBasic = false
  header : f.accepted = true → s.rtu.inHeader = true

/-- An untagged frame that passes as it is, at its seventh word. -/
structure Plain (regs : VlanRegs) (s : RxHead) (f : Frame) : Prop extends Flows s f where
  state : s.vlan.state = .data
  length : f.words.length = 7
  young : f.settled = 0
  mode : f.tagged = false ∧ regs.qmode ≠ .access ∧ regs.qmode ≠ .trunk
  hdr : s.vlan.hdrOffset = oneHot 7
  untagged : s.vlan.isTagged = false ∧ s.vlan.isTagInserted = false
  blank : s.vlan.tagDone = false ∧ s.vlan.vid = 0 ∧ s.vlan.tclass = 0
  shows : Shows s f

/-- A tagged frame, from its seventh to its ninth word. -/
structure Tag (regs : VlanRegs) (s : RxHead) (f : Frame) : Prop extends Flows s f where
  state : s.vlan.state = .data
  range : 7 ≤ f.words.length ∧ f.words.length ≤ 9
  aged : 0 < f.settled → 7 ≤ f.words.length
  mode : f.tagged = true
  hdr : s.vlan.hdrOffset = oneHot f.words.length
  tagged : s.vlan.isTagged = true ∧ s.vlan.isTagInserted = false
  blank : s.vlan.tagDone = false
  named : 8 ≤ f.words.length → (f.decision regs).admits = true ∧ s.vlan.vid = f.vid regs ∧
    mapPrio regs s.vlan.prioInt = f.prio regs
  waits : (Shows s f ∧ f.words.length = 7) ∨ Waits s f

/-- The port's tag goes in. -/
structure Insert (regs : VlanRegs) (s : RxHead) (f : Frame) (j : Nat) : Prop extends Flows s f where
  state : s.vlan.state = .insertTag
  range : j = 7 ∨ j = 8 ∨ j = 9
  length : 7 ≤ f.words.length
  age : f.settled = j - 7
  mode : f.tagged = false ∧ regs.qmode = .access
  hdr : s.vlan.hdrOffset = oneHot j
  tagged : s.vlan.isTagged = false ∧ s.vlan.isTagInserted = true
  blank : s.vlan.tagDone = false
  prio : s.vlan.prioInt = regs.prioVal
  vid : 8 ≤ j → s.vlan.vid = regs.pvid
  waits : (Shows s f ∧ j = 7) ∨ Waits s f

/-- The header is past the VLAN unit. -/
structure Beyond (regs : VlanRegs) (s : RxHead) (f : Frame) : Prop extends Flows s f where
  state : s.vlan.state = .data
  hdr : ∃ j, 7 ≤ j ∧ (s.vlan.isTagged = true → 8 ≤ j) ∧ s.vlan.hdrOffset = oneHot j
  complete : f.complete regs = true
  aged : 0 < f.settled → 7 ≤ f.words.length

/-- The request stands on the output in this cycle. -/
structure Asks (regs : VlanRegs) (s : RxHead) (f : Frame) : Prop where
  waits : Waits s f
  ready : s.ready = true
  rq : s.rtuRq = f.request regs

/-- Nothing is under way; an abort may be on the output. -/
structure Quiet (s : RxHead) : Prop where
  state : s.vlan.state = .waitFrame ∨ s.vlan.state = .discardFrame
  dvalid : s.vlan.src.dvalid = false
  packet : s.rtu.inPacket = false
  basic : s.rtu.validBasic = false
  buffer : s.buffer.state = .waitFrame

/-- The end of a frame stands on the output of the VLAN unit. -/
structure Ends (s : RxHead) : Prop where
  state : s.vlan.state = .waitFrame
  eof : s.vlan.src.eof = true
  error : s.vlan.src.error = false
  dvalid : s.vlan.src.dvalid = false

/-- The VLAN unit is about to show an error. -/
structure Discards (s : RxHead) : Prop where
  state : s.vlan.state = .discardFrame
  eof : s.vlan.src.eof = false
  error : s.vlan.src.error = false

/-- The VLAN unit shows the error. -/
structure Fails (regs : VlanRegs) (s : RxHead) (f : Frame) : Prop where
  state : s.vlan.state = .waitFrame
  error : s.vlan.src.error = true
  dvalid : s.vlan.src.dvalid = false
  packet : s.rtu.inPacket = f.accepted
  quiet : s.rtu.abort = false
  header : f.accepted = true → s.rtu.inHeader = !f.complete regs

def aborted (f : Frame) : List RtuEvent := if f.accepted then [.abort] else []

def abortNow (s : RxHead) : List RtuEvent := if s.rtu.abort then [.abort] else []

/-- The registers fit the newest frame, these pulses of it are still to come, and so many idle cycles
bring them out. -/
inductive Phase (regs : VlanRegs) (s : RxHead) (f : Frame) : List RtuEvent → Nat → Prop
  | quiet : Quiet s → f.Dead regs → Phase regs s f (abortNow s) (abortNow s).length
  | head : Head s f → Phase regs s f [] 0
  | plain : Plain regs s f → Phase regs s f (asked f (f.request regs)) 2
  | tag : Tag regs s f → Phase regs s f (if 9 ≤ f.words.length then asked f (f.request regs) else [])
      (if 9 ≤ f.words.length then 2 else 0)
  | insert (j : Nat) : Insert regs s f j →
      Phase regs s f (if j = 9 then asked f (f.request regs) else []) (11 - j)
  | asking : Beyond regs s f → Asks regs s f → Phase regs s f (asked f (f.request regs)) 1
  | done : Beyond regs s f → Done s f → Phase regs s f [] 0
  | endsAsking : Ends s → Asks regs s f → f.Dead regs → Phase regs s f (asked f (f.request regs)) 1
  | endsDone : Ends s → Done s f → f.Dead regs → Phase regs s f [] 0
  | discardsAsking : Discards s → Asks regs s f → f.ended = true → f.complete regs = true →
      Phase regs s f (asked f (f.request regs) ++ aborted f) 3
  | discardsDone : Discards s → Done s f → f.ended = true → f.complete regs = true → Phase regs s f (aborted f) 3
  | discardsNone : Discards s → f.Dead regs → f.complete regs = false → s.rtu.inPacket = f.accepted →
      s.rtu.abort = false → (f.accepted = true → s.rtu.inHeader = true) → (s.rtu.validBasic && s.ready) = false →
      Phase regs s f [] 0
  | fails : Fails regs s f → f.Dead regs →
      Phase regs s f (if f.complete regs then aborted f else []) (if f.complete regs then 2 else 0)

/-- Nothing comes in. -/
structure Idle (snk : InternalFabric) : Prop where
  sof : snk.sof = false
  dvalid : snk.dvalid = false
  eof : snk.eof = false
  error : snk.error = false

/-- What a cycle makes of a frame, of the pulses it owes and of the time they take. -/
def Moves (regs : VlanRegs) (s : RxHead) (f : Frame) (owed : List RtuEvent) (wait : Nat) (i : RxHeadIn) : Prop :=
  ∃ later more left, Phase regs (s.step regs i) (f.see i.snkFab) later left ∧
    (f.see i.snkFab).expected regs = f.expected regs ++ more ∧ s.pulses i ++ later = owed ++ more ∧
    (Idle i.snkFab → left ≤ wait - 1)

/-! ### After a frame -/

theorem Quiet.step (q : Quiet s) (sof : i.snkFab.sof = false) : Quiet (s.step regs i) := by
  have vlan : ((s.step regs i).vlan.state = .waitFrame ∨ (s.step regs i).vlan.state = .discardFrame) ∧
      (s.step regs i).vlan.src.dvalid = false := by
    cases error : i.snkFab.error with
    | true => simp [RxHead.step, step_error, error, sof, q.dvalid]
    | false =>
        rcases q.state with state | state
        · have next := step_wait regs s.vlan i.snkFab state error sof
          simp [RxHead.step, next, q.dvalid]
        · simp [RxHead.step, step_discard, state, error, sof]
  constructor
  · exact vlan.1
  · exact vlan.2
  · simp [RxHead.step, RtuHeader.step, rtuIn, VlanUnit.srcFab, sof, q.packet]
  · simp [RxHead.step, RtuHeader.step, rtuIn, VlanUnit.srcFab, q.dvalid, q.basic]
  · simp [RxHead.step, RxBuffer.step, RxBuffer.pFifoWrite, bufferIn, RtuHeader.srcFab, rtuIn, VlanUnit.srcFab, sof,
      q.buffer]

theorem Quiet.pulses (q : Quiet s) : s.pulses i = abortNow s := by
  have out := validOut_eq s i
  rw [q.basic] at out
  simp [RxHead.pulses, abortNow, RtuHeader.rqValid, out]

theorem quiet_moves (q : Quiet s) (dead : f.Dead regs) (sof : i.snkFab.sof = false) :
    Moves regs s f (abortNow s) (abortNow s).length i := by
  have after : abortNow (s.step regs i) = [] := by
    simp [abortNow, RxHead.step, RtuHeader.step, q.packet]
  refine ⟨abortNow (s.step regs i), [], _, .quiet (q.step sof) (dead.see _).1, ?_, ?_, ?_⟩
  · simp [(dead.see _).2]
  · rw [q.pulses, after]
  · simp [after]

/-- The buffer leaves a frame with its end or its error. -/
theorem buffer_waits (sof : i.snkFab.sof = false) (past : s.vlan.src.eof = true ∨ s.vlan.src.error = true) :
    (s.step regs i).buffer.state = .waitFrame := by
  cases state : s.buffer.state with
  | waitFrame =>
      simp [RxHead.step, RxBuffer.step, RxBuffer.pFifoWrite, bufferIn, RtuHeader.srcFab, rtuIn, VlanUnit.srcFab, sof,
        state]
  | data =>
      rcases past with past | past <;>
        simp [RxHead.step, RxBuffer.step, RxBuffer.pFifoWrite, bufferIn, RtuHeader.srcFab, rtuIn, VlanUnit.srcFab, sof,
          state, past]

/-- The VLAN unit after the cycle that shows the end of a frame. -/
theorem after_end (state : s.vlan.state = .waitFrame) (dvalid : s.vlan.src.dvalid = false)
    (sof : i.snkFab.sof = false) :
    ((s.step regs i).vlan.state = .waitFrame ∨ (s.step regs i).vlan.state = .discardFrame) ∧
      (s.step regs i).vlan.src.dvalid = false := by
  cases error : i.snkFab.error with
  | true => simp [RxHead.step, step_error, error, sof, dvalid]
  | false =>
      have next := step_wait regs s.vlan i.snkFab state error sof
      simp [RxHead.step, next, dvalid]

theorem Ends.quiet (e : Ends s) (sof : i.snkFab.sof = false) (late : s.rtu.validBasic = true → s.ready = true) :
    Quiet (s.step regs i) := by
  have out := validOut_eq s i
  constructor
  · exact (after_end e.state e.dvalid sof).1
  · exact (after_end e.state e.dvalid sof).2
  · simp [RxHead.step, RtuHeader.step, rtuIn, VlanUnit.srcFab, sof, e.eof]
  · have gone : (s.rtu.validBasic && s.ready) = s.rtu.validBasic := by
      cases basic : s.rtu.validBasic <;> simp_all
    rw [gone] at out
    simp only [RxHead.step, RtuHeader.step, out]
    simp only [rtuIn, VlanUnit.srcFab, e.dvalid, e.error]
    cases s.rtu.validBasic <;> rfl
  · exact buffer_waits sof (.inl e.eof)

theorem Ends.abortNow (e : Ends s) : abortNow (s.step regs i) = [] := by
  simp [RxHead.abortNow, RxHead.step, RtuHeader.step, rtuIn, VlanUnit.srcFab, e.error]

theorem Ends.pulses (e : Ends s) (quiet : s.rtu.abort = false) :
    s.pulses i = if s.rtu.validBasic && s.ready then [.request s.rtuRq] else [] := by
  have out := validOut_eq s i
  have shown : (s.rtuIn i).snkFab.error = false := e.error
  simp only [RxHead.pulses, RtuHeader.rqValid, out, shown, quiet]
  simp

theorem ends_asking (e : Ends s) (asks : Asks regs s f) (dead : f.Dead regs) (sof : i.snkFab.sof = false) :
    Moves regs s f (asked f (f.request regs)) 1 i := by
  obtain ⟨m, -, gathered⟩ := asks.waits.gathered
  refine ⟨RxHead.abortNow (s.step regs i), [], _, .quiet (e.quiet sof fun _ => asks.ready) (dead.see _).1, ?_, ?_,
    by simp [e.abortNow]⟩
  · simp [(dead.see _).2]
  · rw [e.abortNow, e.pulses gathered.quiet, asks.waits.basic, asks.ready, asks.rq, asked]
    cases f.accepted <;> rfl

theorem ends_done (e : Ends s) (past : Done s f) (dead : f.Dead regs) (sof : i.snkFab.sof = false) :
    Moves regs s f [] 0 i := by
  have basic := past.basic
  refine ⟨RxHead.abortNow (s.step regs i), [], _, .quiet (e.quiet sof (by simp [basic])) (dead.see _).1, ?_, ?_,
    by simp [e.abortNow]⟩
  · simp [(dead.see _).2]
  · rw [e.abortNow, e.pulses past.quiet, basic]
    rfl

theorem fails_moves (e : Fails regs s f) (dead : f.Dead regs) (sof : i.snkFab.sof = false) :
    Moves regs s f (if f.complete regs then aborted f else []) (if f.complete regs then 2 else 0) i := by
  have out := validOut_eq s i
  have quiet : Quiet (s.step regs i) := by
    constructor
    · exact (after_end e.state e.dvalid sof).1
    · exact (after_end e.state e.dvalid sof).2
    · simp [RxHead.step, RtuHeader.step, rtuIn, VlanUnit.srcFab, e.error]
    · simp [RxHead.step, RtuHeader.step, rtuIn, VlanUnit.srcFab, e.error, e.dvalid]
    · exact buffer_waits sof (.inr e.error)
  have none : s.pulses i = [] := by
    simp [RxHead.pulses, RtuHeader.rqValid, rtuIn, VlanUnit.srcFab, e.error, e.quiet]
  have abort : RxHead.abortNow (s.step regs i) = if f.complete regs then aborted f else [] := by
    simp only [RxHead.abortNow, RxHead.step, RtuHeader.step, rtuIn, VlanUnit.srcFab, e.error, e.packet, e.quiet,
      aborted]
    cases accepted : f.accepted with
    | false => cases f.complete regs <;> rfl
    | true =>
        rw [e.header accepted]
        cases f.complete regs <;> rfl
  refine ⟨RxHead.abortNow (s.step regs i), [], _, .quiet quiet (dead.see _).1, ?_, ?_, ?_⟩
  · simp [(dead.see _).2]
  · rw [none, abort]
    simp
  · intro _
    rw [abort, aborted]
    cases f.complete regs <;> cases f.accepted <;> decide

/-! ### Discarding a frame -/

/-- The cycle before the error is shown. -/
theorem Discards.fails (d : Discards s) (error : i.snkFab.error = false) (sof : i.snkFab.sof = false)
    (same : (f.see i.snkFab).complete regs = f.complete regs) (packet : s.rtu.inPacket = f.accepted)
    (header : f.accepted = true → (s.rtu.inHeader && !(s.rtu.validBasic && s.ready)) = !f.complete regs) :
    Fails regs (s.step regs i) (f.see i.snkFab) := by
  have inside : Inside s i := ⟨sof, d.eof, d.error⟩
  have vlan := step_discard regs s.vlan i.snkFab d.state error sof
  constructor
  · simp [RxHead.step, vlan]
  · simp [RxHead.step, vlan]
  · simp [RxHead.step, vlan]
  · rw [step_packet inside, packet, Frame.see_accepted]
  · exact step_quiet inside
  · intro accepted
    rw [Frame.see_accepted] at accepted
    rw [step_header inside, header accepted, same]

theorem ended_see (ended : f.ended = true) (snk : InternalFabric) : f.see snk = f := by
  simp [Frame.see, ended]

theorem discards_asking (d : Discards s) (asks : Asks regs s f) (ended : f.ended = true)
    (complete : f.complete regs = true) (error : i.snkFab.error = false) (sof : i.snkFab.sof = false) :
    Moves regs s f (asked f (f.request regs) ++ aborted f) 3 i := by
  have inside : Inside s i := ⟨sof, d.eof, d.error⟩
  have frame := ended_see ended i.snkFab
  obtain ⟨m, -, gathered⟩ := asks.waits.gathered
  have fails : Fails regs (s.step regs i) (f.see i.snkFab) := by
    apply d.fails error sof (by rw [frame]) gathered.packet
    intro accepted
    rw [asks.waits.basic, asks.ready, accepted, complete]
    simp
  refine ⟨_, [], _, .fails fails (by rw [frame]; exact .inl ended), by simp [frame], ?_, by simp [frame, complete]⟩
  rw [frame, complete, if_pos rfl, asks.waits.pulses inside, asks.ready, asks.rq]
  simp

theorem discards_done (d : Discards s) (past : Done s f) (ended : f.ended = true)
    (complete : f.complete regs = true) (error : i.snkFab.error = false) (sof : i.snkFab.sof = false) :
    Moves regs s f (aborted f) 3 i := by
  have inside : Inside s i := ⟨sof, d.eof, d.error⟩
  have frame := ended_see ended i.snkFab
  have fails : Fails regs (s.step regs i) (f.see i.snkFab) := by
    apply d.fails error sof (by rw [frame]) past.packet
    intro accepted
    rw [past.header accepted, complete]
    simp
  refine ⟨_, [], _, .fails fails (by rw [frame]; exact .inl ended), by simp [frame], ?_, by simp [frame, complete]⟩
  rw [frame, complete, if_pos rfl, pulses_inside inside past.quiet, past.basic]
  simp

theorem discards_none (d : Discards s) (dead : f.Dead regs) (short : f.complete regs = false)
    (packet : s.rtu.inPacket = f.accepted) (quiet : s.rtu.abort = false)
    (header : f.accepted = true → s.rtu.inHeader = true) (held : (s.rtu.validBasic && s.ready) = false)
    (error : i.snkFab.error = false) (sof : i.snkFab.sof = false) : Moves regs s f [] 0 i := by
  have inside : Inside s i := ⟨sof, d.eof, d.error⟩
  have same := dead.complete i.snkFab
  have fails : Fails regs (s.step regs i) (f.see i.snkFab) := by
    apply d.fails error sof same packet
    intro accepted
    rw [header accepted, held, short]
    rfl
  refine ⟨_, [], _, .fails fails (dead.see _).1, by simp [(dead.see _).2], ?_, by simp [same, short]⟩
  rw [same, short, pulses_inside inside quiet, held]
  rfl

/-! ### A frame that fails -/

theorem Flows.failed (flows : Flows s f) (error : i.snkFab.error = true) :
    f.see i.snkFab = { f with ended := true, failed := true } := by
  simp [Frame.see, flows.live, error]

theorem Flows.discards (flows : Flows s f) (error : i.snkFab.error = true) (sof : i.snkFab.sof = false) :
    Discards (s.step regs i) := by
  have vlan := step_error regs s.vlan i.snkFab error sof
  constructor
  · simp [RxHead.step, vlan]
  · simp [RxHead.step, vlan, flows.eof]
  · simp [RxHead.step, vlan, flows.error]

/-- What an error adds to what is due. -/
theorem failed_expected (live : f.failed = false) (complete : f.complete regs = true) :
    ({ f with ended := true, failed := true } : Frame).expected regs = f.expected regs ++ aborted f := by
  have same : ({ f with ended := true, failed := true } : Frame).complete regs = f.complete regs := rfl
  have also : ({ f with ended := true, failed := true } : Frame).request regs = f.request regs := rfl
  simp only [Frame.expected, same, also, complete, live, aborted]
  cases f.accepted <;> rfl

/-- Seven words are enough to know the frame by. -/
theorem Waits.see (w : Waits s f) (typed : 7 ≤ f.words.length) (snk : InternalFabric) : Waits s (f.see snk) := by
  obtain ⟨m, past, gathered⟩ := w.gathered
  constructor
  · refine ⟨m, past, gathered.hdr, ?_, ?_, gathered.quiet⟩
    · intro k early
      rw [gathered.macs k early, Frame.see_word snk (by omega)]
    · rw [gathered.packet, Frame.see_accepted]
  · rw [w.basic, Frame.see_accepted]
  · rw [Frame.see_accepted]
    exact w.header

theorem Done.see (d : Done s f) (snk : InternalFabric) : Done s (f.see snk) := by
  constructor
  · exact d.hdr
  · rw [d.packet, Frame.see_accepted]
  · exact d.quiet
  · exact d.basic
  · rw [Frame.see_accepted]
    exact d.header

theorem asked_see (f : Frame) (snk : InternalFabric) (rq : RtuRequest) : asked (f.see snk) rq = asked f rq := by
  simp [asked]

theorem aborted_see (f : Frame) (snk : InternalFabric) : aborted (f.see snk) = aborted f := by
  simp [aborted]

/-- An error does not leave the cycle idle. -/
theorem Idle.sound {snk : InternalFabric} (idle : Idle snk) (error : snk.error = true) : False := by
  rw [idle.error] at error
  simp at error

theorem fail_asks {wait : Nat} (flows : Flows s f) (error : i.snkFab.error = true) (sof : i.snkFab.sof = false)
    (typed : 7 ≤ f.words.length) (asks : Asks regs (s.step regs i) f) (complete : f.complete regs = true)
    (none : s.pulses i = []) : Moves regs s f (asked f (f.request regs)) wait i := by
  have frame := flows.failed error
  have later : Asks regs (s.step regs i) (f.see i.snkFab) := by
    refine ⟨asks.waits.see typed _, asks.ready, ?_⟩
    rw [asks.rq, frame]
    rfl
  refine ⟨_, aborted f, _, .discardsAsking (flows.discards error sof) later (by rw [frame])
    (by rw [frame]; exact complete), ?_, ?_, fun idle => (idle.sound error).elim⟩
  · rw [frame, failed_expected flows.sound complete]
  · rw [none, asked_see, aborted_see, frame]
    rfl

theorem fail_done {owed : List RtuEvent} {wait : Nat} (flows : Flows s f) (error : i.snkFab.error = true)
    (sof : i.snkFab.sof = false) (past : Done (s.step regs i) f) (complete : f.complete regs = true)
    (now : s.pulses i = owed) : Moves regs s f owed wait i := by
  have frame := flows.failed error
  refine ⟨_, aborted f, _, .discardsDone (flows.discards error sof) (past.see _) (by rw [frame])
    (by rw [frame]; exact complete), ?_, ?_, fun idle => (idle.sound error).elim⟩
  · rw [frame, failed_expected flows.sound complete]
  · rw [now, aborted_see]

theorem fail_none {wait : Nat} (flows : Flows s f) (error : i.snkFab.error = true) (sof : i.snkFab.sof = false)
    (short : f.complete regs = false) (packet : (s.step regs i).rtu.inPacket = f.accepted)
    (quiet : (s.step regs i).rtu.abort = false) (header : f.accepted = true → (s.step regs i).rtu.inHeader = true)
    (held : ((s.step regs i).rtu.validBasic && (s.step regs i).ready) = false) (none : s.pulses i = []) :
    Moves regs s f [] wait i := by
  have frame := flows.failed error
  have same : (f.see i.snkFab).complete regs = f.complete regs := by
    rw [frame]
    rfl
  refine ⟨_, [], _, .discardsNone (flows.discards error sof) (.inl (by rw [frame])) (same.trans short)
    (by rw [packet, Frame.see_accepted]) quiet (by rw [Frame.see_accepted]; exact header) held, ?_, ?_, by simp⟩
  · simp [Frame.expected, same, short]
  · rw [none]

/-! ### Past the header -/

theorem aged_see (aged : 0 < f.settled → 7 ≤ f.words.length) (snk : InternalFabric) :
    0 < (f.see snk).settled → 7 ≤ (f.see snk).words.length := by
  have longer := Frame.see_length f snk
  intro old
  by_cases before : 0 < f.settled
  · have := aged before
    omega
  · by_contra short
    have young : ¬7 ≤ f.words.length := by omega
    have same : (f.see snk).settled = f.settled := by
      unfold Frame.see
      repeat' split
      all_goals rfl
    omega

theorem see_sound (error : snk.error = false) (sound : f.failed = false) : (f.see snk).failed = false := by
  unfold Frame.see
  repeat' split
  all_goals simp_all

theorem Beyond.words (b : Beyond regs s f) :
    7 ≤ f.words.length ∧ (f.tagged = true → 9 ≤ f.words.length ∧ (f.decision regs).admits = true) :=
  Frame.complete_typed b.complete b.aged

theorem Beyond.request (b : Beyond regs s f) (snk : InternalFabric) :
    (f.see snk).request regs = f.request regs := by
  obtain ⟨typed, named⟩ := b.words
  exact Frame.see_request snk typed fun tagged => by have := (named tagged).1; omega

theorem Beyond.expected (b : Beyond regs s f) (error : i.snkFab.error = false) :
    (f.see i.snkFab).expected regs = f.expected regs := by
  have complete := Frame.see_complete i.snkFab b.complete b.aged
  simp [Frame.expected, complete, b.complete, b.request, see_sound error b.sound, b.sound]

/-- No word is the type or the tag of the frame any more. -/
theorem Beyond.late (b : Beyond regs s f) (snk : InternalFabric) :
    s.vlan.atEthertype snk = false ∧ s.vlan.atVid snk = false := by
  obtain ⟨j, past, named, hdr⟩ := b.hdr
  constructor
  · rw [atEthertype, hdr, late_bits past (by omega)]
    rfl
  · cases tagged : s.vlan.isTagged with
    | false => simp [atVid, tagged]
    | true =>
        have := named tagged
        rw [atVid, hdr, oneHot_bit j 7 (by omega)]
        simp
        omega

theorem Beyond.step (b : Beyond regs s f) (error : i.snkFab.error = false) (sof : i.snkFab.sof = false)
    (eof : i.snkFab.eof = false) : Beyond regs (s.step regs i) (f.see i.snkFab) := by
  have vlan := step_word regs s.vlan i.snkFab b.state error sof eof (b.late _).1 (b.late _).2
  have next : (s.step regs i).vlan = s.vlan.step regs i.snkFab true := rfl
  rw [vlan] at next
  constructor
  · constructor
    · simp [Frame.see, b.live, error, eof]
    · exact see_sound error b.sound
    · rw [next]
      rfl
    · rw [next]
      rfl
  · rw [next]
    exact b.state
  · obtain ⟨j, past, named, hdr⟩ := b.hdr
    rw [next, hdr]
    cases i.snkFab.dvalid with
    | false => exact ⟨j, past, named, rfl⟩
    | true => exact ⟨j + 1, by omega, fun tagged => by have := named tagged; omega, oneHot_next j⟩
  · exact Frame.see_complete _ b.complete b.aged
  · exact aged_see b.aged _

theorem Flows.ends (flows : Flows s f) (state : s.vlan.state = .data) (error : i.snkFab.error = false)
    (sof : i.snkFab.sof = false) (eof : i.snkFab.eof = true) (gap : i.snkFab.dvalid = false) :
    Ends (s.step regs i) ∧ (f.see i.snkFab) = { f with ended := true } := by
  have vlan := step_eof regs s.vlan i.snkFab state error sof eof gap
  have next : (s.step regs i).vlan = s.vlan.step regs i.snkFab true := rfl
  rw [vlan] at next
  constructor
  · constructor
    · rw [next]
    · rw [next]
    · rw [next]
      rfl
    · rw [next]
      exact gap
  · simp [Frame.see, flows.live, error, eof]

theorem Beyond.inside (b : Beyond regs s f) (sof : i.snkFab.sof = false) : Inside s i := ⟨sof, b.eof, b.error⟩

theorem asking_moves (b : Beyond regs s f) (asks : Asks regs s f) (sof : i.snkFab.sof = false)
    (stop : i.snkFab.eof = true → i.snkFab.error = false → i.snkFab.dvalid = false) :
    Moves regs s f (asked f (f.request regs)) 1 i := by
  have inside := b.inside sof
  have past : Done (s.step regs i) f := asks.waits.asks inside asks.ready
  have now : s.pulses i = asked f (f.request regs) := by
    rw [asks.waits.pulses inside, asks.ready, asks.rq]
    rfl
  cases error : i.snkFab.error with
  | true => exact fail_done b.toFlows error sof past b.complete now
  | false =>
      cases eof : i.snkFab.eof with
      | true =>
          obtain ⟨ends, frame⟩ := b.toFlows.ends b.state error sof eof (stop eof error)
          exact ⟨[], [], 0, .endsDone ends (past.see _) (.inl (by rw [frame])), by simp [b.expected error],
            by rw [now], by simp⟩
      | false =>
          exact ⟨[], [], 0, .done (b.step error sof eof) (past.see _), by simp [b.expected error], by rw [now],
            by simp⟩

theorem done_moves (b : Beyond regs s f) (past : Done s f) (sof : i.snkFab.sof = false)
    (stop : i.snkFab.eof = true → i.snkFab.error = false → i.snkFab.dvalid = false) : Moves regs s f [] 0 i := by
  have inside := b.inside sof
  have later : Done (s.step regs i) f := past.stays inside
  have now : s.pulses i = [] := by
    rw [pulses_inside inside past.quiet, past.basic]
    rfl
  cases error : i.snkFab.error with
  | true => exact fail_done b.toFlows error sof later b.complete now
  | false =>
      cases eof : i.snkFab.eof with
      | true =>
          obtain ⟨ends, frame⟩ := b.toFlows.ends b.state error sof eof (stop eof error)
          exact ⟨[], [], 0, .endsDone ends (later.see _) (.inl (by rw [frame])), by simp [b.expected error],
            by rw [now], by simp⟩
      | false =>
          exact ⟨[], [], 0, .done (b.step error sof eof) (later.see _), by simp [b.expected error], by rw [now],
            by simp⟩

end WrCores.Endpoint.RxHead
