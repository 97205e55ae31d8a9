import WrCores.Clocked.Run
import WrCores.Endpoint.Pkg

/-!
ep_tx_packet_injection.vhd: frames from a template memory between the frames of the user. The
memory is read through its registered output, so `mem_data_i` shows the word at the address of
the cycle before. The fields of `inj_src` that the source never drives are zero.
-/

namespace WrCores.Endpoint

open Clocked

inductive InjectState where
  | waitIdle
  | sof
  | doInject
  | eof
  deriving DecidableEq, Repr

structure InjectIn where
  snkFab : InternalFabric := {}
  srcDreq : Bool := true
  injectReq : Bool := false
  injectPacketSel : BitVec 3 := 0
  injectUserValue : BitVec 16 := 0
  injectMode : BitVec 2 := 0
  rstN : Bool := true
  deriving DecidableEq, Repr

structure Injection where
  state : InjectState := .waitIdle
  counter : BitVec 9 := 0
  memData : BitVec 18 := 0
  withinPacket : Bool := false
  selectInject : Bool := false
  injectReady : Bool := true
  injectReqLatched : Bool := false
  firstWord : Bool := false
  noTemplateError : Bool := false
  injSof : Bool := false
  injEof : Bool := false
  injDvalid : Bool := false
  injError : Bool := false
  deriving DecidableEq, Repr

namespace Injection

/-- `template_last` and `template_first` are the same bit. -/
def marked (word : BitVec 18) : Bool := word.getLsbD 16

def user (word : BitVec 18) : Bool := word.getLsbD 17

def snkDreq (s : Injection) (i : InjectIn) : Bool := s.state != .doInject && i.srcDreq

def injSrc (s : Injection) (i : InjectIn) : InternalFabric where
  sof := s.injSof
  eof := s.injEof
  error := s.injError
  dvalid := s.injDvalid
  bytesel := marked s.memData && !s.firstWord && user s.memData
  data := if user s.memData && !marked s.memData && !s.firstWord then i.injectUserValue
    else s.memData.extractLsb' 0 16

def srcFab (s : Injection) (i : InjectIn) : InternalFabric :=
  if s.selectInject then s.injSrc i else i.snkFab

/-- `p_detect_within`. -/
def detectWithin (s : Injection) (i : InjectIn) : Bool :=
  i.rstN && !(i.snkFab.eof || i.snkFab.error) && (i.snkFab.sof || s.withinPacket)

/-- `p_injection_request_ready`. -/
def requestReady (s : Injection) (i : InjectIn) : Injection :=
  if !i.rstN then { s with injectReady := true, injectReqLatched := false }
  else if i.injectReq then { s with injectReady := false, injectReqLatched := true }
  else if s.state == .eof && i.srcDreq then { s with injectReady := true, injectReqLatched := false }
  else if s.noTemplateError then { s with injectReady := true, injectReqLatched := false }
  else s

/-- In `WAIT_IDLE`, the cycle that turns to the template. -/
def decides (s : Injection) : Bool := !s.withinPacket && s.injectReqLatched && !s.noTemplateError

/-- `p_injection_fsm`. -/
def fsmStep (s : Injection) (i : InjectIn) : Injection :=
  if !i.rstN then
    { s with
      state := .waitIdle, selectInject := false, noTemplateError := false, injSof := false, injEof := false
      injDvalid := false, injError := false, firstWord := false }
  else
    match s.state with
    | .waitIdle =>
        { s with
          injSof := false, injEof := false, injDvalid := false, injError := false, noTemplateError := false
          firstWord := false, selectInject := s.decides
          counter := if i.injectReq then i.injectPacketSel ++ 0#6 else s.counter
          state := if s.decides then .sof else .waitIdle }
    | .sof =>
        if !marked s.memData then { s with state := .waitIdle, noTemplateError := true }
        else if i.srcDreq then { s with firstWord := true, injSof := true, state := .doInject }
        else s
    | .doInject =>
        let next := { s with
          injSof := false, injDvalid := i.srcDreq
          counter := if i.srcDreq then s.counter + 1 else s.counter
          firstWord := s.firstWord && marked s.memData }
        if marked s.memData && s.injDvalid && !s.firstWord && i.srcDreq then
          { next with
            injDvalid := false, state := .eof, injError := s.injError || i.injectMode == 1
            injEof := s.injEof || i.injectMode != 1 }
        else next
    | .eof =>
        { s with
          injEof := false, injError := false
          state := if i.srcDreq then .waitIdle else .eof
          selectInject := s.selectInject && !i.srcDreq }

variable (mem : BitVec 9 → BitVec 18)

def step (s : Injection) (i : InjectIn) : Injection :=
  { s.fsmStep i with
    memData := mem s.counter
    withinPacket := s.detectWithin i
    injectReady := (s.requestReady i).injectReady
    injectReqLatched := (s.requestReady i).injectReqLatched }

end Injection

/-! ### Frames on the fabric -/

/-- What the stages in front of the PCS see in a cycle. -/
def InternalFabric.txEvents (fab : InternalFabric) : List FabEvent :=
  (if fab.sof then [FabEvent.sof] else []) ++ (if fab.dvalid then [FabEvent.word fab.data fab.bytesel] else []) ++
    (if fab.eof then [FabEvent.eof] else []) ++ (if fab.error then [FabEvent.error] else [])

/-- A frame that ended, with `eof` or with an error. -/
structure TxFrame where
  words : List (BitVec 16 × Bool)
  ok : Bool
  deriving DecidableEq, Repr

/-- The frames of a stream, and the words of the one that is not over. -/
structure Parsed where
  frames : List TxFrame := []
  current : Option (List (BitVec 16 × Bool)) := none
  deriving DecidableEq, Repr

def Parsed.take : Parsed → FabEvent → Option Parsed
  | ⟨frames, none⟩, .sof => some ⟨frames, some []⟩
  | ⟨frames, some words⟩, .word data bytesel => some ⟨frames, some (words ++ [(data, bytesel)])⟩
  | ⟨frames, some words⟩, .eof => some ⟨frames ++ [⟨words, true⟩], none⟩
  | ⟨frames, some words⟩, .error => some ⟨frames ++ [⟨words, false⟩], none⟩
  | _, _ => none

/-- Frame after frame, and nothing else. -/
def Parsed.takes (parsed : Parsed) (events : List FabEvent) : Option Parsed := events.foldlM Parsed.take parsed

namespace Injection

/-! ### Templates -/

variable (mem : BitVec 9 → BitVec 18)

/-- The words of a template; it may run on into the next one. -/
def slot (sel : BitVec 3) (k : Nat) : BitVec 18 := mem (sel ++ 0#6 + BitVec.ofNat 9 k)

/-- A word as it is to be sent: the first one is marked, and so is the last one, where the user bit
stands for half a word. -/
def templateWord (sel : BitVec 3) (value : BitVec 16) (k : Nat) : BitVec 16 × Bool :=
  let word := slot mem sel k
  if k = 0 then (word.extractLsb' 0 16, false)
  else (if user word && !marked word then value else word.extractLsb' 0 16, marked word && user word)

/-- The words from the first one on, each with some user value. -/
def Shown (sel : BitVec 3) (words : List (BitVec 16 × Bool)) : Prop :=
  ∀ k, ∀ inside : k < words.length, ∃ value, words[k] = templateWord mem sel value k

/-- A whole template: up to the next marked word. -/
structure IsTemplate (sel : BitVec 3) (frame : TxFrame) : Prop where
  shown : Shown mem sel frame.words
  long : 2 ≤ frame.words.length
  last : marked (slot mem sel (frame.words.length - 1)) = true
  inner : ∀ k, 0 < k → k + 1 < frame.words.length → marked (slot mem sel k) = false

/-- Each request gives its template, or nothing if there is none. -/
inductive Yields : List (BitVec 3) → List TxFrame → Prop
  | nil : Yields [] []
  | frame {sels : List (BitVec 3)} {frames : List TxFrame} {sel : BitVec 3} {frame : TxFrame} :
      Yields sels frames → marked (slot mem sel 0) = true → IsTemplate mem sel frame →
      Yields (sels ++ [sel]) (frames ++ [frame])
  | none {sels : List (BitVec 3)} {frames : List TxFrame} {sel : BitVec 3} :
      Yields sels frames → marked (slot mem sel 0) = false → Yields (sels ++ [sel]) frames

/-! ### Runs -/

/-- The user sends frame after frame, and requests come when the last one is done. -/
structure Legal (s : Injection) (i : InjectIn) : Prop where
  rstN : i.rstN = true
  sof : i.snkFab.sof = true → s.withinPacket = false ∧ i.snkFab.dvalid = false ∧ i.snkFab.eof = false ∧
    i.snkFab.error = false
  inside : i.snkFab.dvalid = true ∨ i.snkFab.eof = true ∨ i.snkFab.error = true → s.withinPacket = true
  ends : ¬(i.snkFab.eof = true ∧ i.snkFab.error = true)
  request : i.injectReq = true → s.injectReady = true

/-- Nothing comes from the user while the template has the output, nor does a frame start in the
cycle that turns to it; the sink still asks in the cycle of the last word; and the second word of
a requested template has neither bit. -/
structure Clear (s : Injection) (i : InjectIn) : Prop where
  silent : s.selectInject = true → i.snkFab.txEvents = []
  starts : s.state = .waitIdle → s.decides = true → i.snkFab.sof = false
  last : s.state = .doInject → s.injDvalid = true → s.firstWord = false → marked s.memData = true →
    i.srcDreq = true
  second : i.injectReq = true → marked (slot mem i.injectPacketSel 0) = true →
    marked (slot mem i.injectPacketSel 1) = false ∧ user (slot mem i.injectPacketSel 1) = false

def userEvents (_ : Injection) (i : InjectIn) : List FabEvent := i.snkFab.txEvents

def sentEvents (s : Injection) (i : InjectIn) : List FabEvent := (s.srcFab i).txEvents

/-- The requests that are accepted. -/
def accepted (s : Injection) (i : InjectIn) : List (BitVec 3) :=
  if i.injectReq && s.injectReady then [i.injectPacketSel] else []

/-- The second word of a template ends nothing. -/
def Plain (sel : BitVec 3) : Prop :=
  marked (slot mem sel 0) = true → marked (slot mem sel 1) = false ∧ user (slot mem sel 1) = false

/-- Nothing of the template is on the output. -/
structure Still (s : Injection) : Prop where
  sof : s.injSof = false
  dvalid : s.injDvalid = false
  eof : s.injEof = false
  error : s.injError = false

/-- The request that is being served. -/
structure Serves (sel : BitVec 3) (s : Injection) : Prop where
  ready : s.injectReady = false
  latched : s.injectReqLatched = true
  plain : Plain mem sel

/-- The template has the output. -/
structure Holds (sel : BitVec 3) (s : Injection) : Prop extends Serves mem sel s where
  select : s.selectInject = true
  within : s.withinPacket = false

/-- Where the FSM is, and which requests have still to be served. -/
inductive Stage (s : Injection) (user out : Parsed) : List (BitVec 3) → Prop
  | idle : s.state = .waitIdle → s.noTemplateError = false → s.selectInject = false →
      s.injectReady = true → s.injectReqLatched = false → out.current = user.current → Stage s user out []
  | requested {sel : BitVec 3} : s.state = .waitIdle → s.noTemplateError = false → s.selectInject = false →
      Serves mem sel s → s.counter = sel ++ 0#6 → out.current = user.current → Stage s user out [sel]
  | refused {sel : BitVec 3} : s.state = .waitIdle → s.noTemplateError = true → Still s → Holds mem sel s →
      marked (slot mem sel 0) = false → out.current = none → Stage s user out [sel]
  | sof {sel : BitVec 3} : s.state = .sof → s.noTemplateError = false → Still s → Holds mem sel s →
      s.counter = sel ++ 0#6 → s.memData = slot mem sel 0 → out.current = none → Stage s user out [sel]
  | words {sel : BitVec 3} {shown : Nat} : s.state = .doInject → s.noTemplateError = false →
      Holds mem sel s → marked (slot mem sel 0) = true → s.injEof = false → s.injError = false →
      s.counter = sel ++ 0#6 + BitVec.ofNat 9 (shown + s.injDvalid.toNat) →
      s.memData = slot mem sel shown → (s.injSof = true → shown = 0 ∧ s.injDvalid = false) →
      (shown = 0 → s.firstWord = true) → (2 ≤ shown → s.firstWord = false) →
      (∀ k, 0 < k → k < shown → marked (slot mem sel k) = false) →
      (∃ words, words.length = shown ∧ Shown mem sel words ∧
        out.current = if s.injSof then none else some words) → Stage s user out [sel]
  | ending {sel : BitVec 3} : s.state = .eof → s.noTemplateError = false → Holds mem sel s →
      marked (slot mem sel 0) = true → s.injSof = false → s.injDvalid = false → s.injError = !s.injEof →
      (∃ words, IsTemplate mem sel ⟨words, s.injEof⟩ ∧ out.current = some words) → Stage s user out [sel]
  | ended {sel : BitVec 3} : s.state = .eof → s.noTemplateError = false → Still s → Holds mem sel s →
      out.current = none → Stage s user out []

section Edge

variable {mem} {s : Injection} {i : InjectIn}

@[simp] theorem takes_nil (parsed : Parsed) : parsed.takes [] = some parsed := rfl

theorem txEvents_nil {fab : InternalFabric} (none : fab.txEvents = []) :
    fab.sof = false ∧ fab.dvalid = false ∧ fab.eof = false ∧ fab.error = false := by
  simpa [InternalFabric.txEvents] using none

/-- A cycle of the user is read in the same way by whoever stands where the user does. -/
theorem user_pass (legal : Legal s i) {user out : Parsed} (within : user.current.isSome = s.withinPacket)
    (same : out.current = user.current) : ∃ more current,
      user.takes i.snkFab.txEvents = some ⟨user.frames ++ more, current⟩ ∧
      out.takes i.snkFab.txEvents = some ⟨out.frames ++ more, current⟩ ∧
      more.length ≤ 1 ∧ current.isSome = s.detectWithin i := by
  obtain ⟨frames, current⟩ := user
  obtain ⟨frames', current'⟩ := out
  simp only at within same ⊢
  subst same
  cases sof : i.snkFab.sof with
  | true =>
      obtain ⟨outside, dvalid, eof, error⟩ := legal.sof sof
      rw [outside] at within
      obtain rfl : current' = none := by simpa using within
      exact ⟨[], some [], by simp [InternalFabric.txEvents, sof, dvalid, eof, error, Parsed.takes, Parsed.take,
        detectWithin, legal.rstN]⟩
  | false =>
      cases inside : s.withinPacket with
      | false =>
          have quiet : i.snkFab.dvalid = false ∧ i.snkFab.eof = false ∧ i.snkFab.error = false := by
            have none := mt legal.inside (by simp [inside])
            simpa using none
          rw [inside] at within
          obtain rfl : current' = none := by simpa using within
          exact ⟨[], none, by simp [InternalFabric.txEvents, sof, quiet, detectWithin, inside]⟩
      | true =>
          rw [inside] at within
          obtain ⟨words, rfl⟩ := Option.isSome_iff_exists.1 within
          let words' := words ++ if i.snkFab.dvalid then [(i.snkFab.data, i.snkFab.bytesel)] else []
          have ends := legal.ends
          cases eof : i.snkFab.eof <;> cases error : i.snkFab.error
          · refine ⟨[], some words', ?_⟩
            cases dvalid : i.snkFab.dvalid <;> simp [words', InternalFabric.txEvents, sof, eof, error, dvalid,
              Parsed.takes, Parsed.take, detectWithin, legal.rstN, inside]
          · refine ⟨[⟨words', false⟩], none, ?_⟩
            cases dvalid : i.snkFab.dvalid <;> simp [words', InternalFabric.txEvents, sof, eof, error, dvalid,
              Parsed.takes, Parsed.take, detectWithin]
          · refine ⟨[⟨words', true⟩], none, ?_⟩
            cases dvalid : i.snkFab.dvalid <;> simp [words', InternalFabric.txEvents, sof, eof, error, dvalid,
              Parsed.takes, Parsed.take, detectWithin]
          · exact absurd ⟨eof, error⟩ ends

theorem shuffle_more {user ts out more : List TxFrame} (merged : Shuffle user ts out) (few : more.length ≤ 1) :
    Shuffle (user ++ more) ts (out ++ more) := by
  match more, few with
  | [], _ => simpa using merged
  | [frame], _ => exact .left frame merged

/-- Everything that is known in a cycle. -/
structure Tracks (mem : BitVec 9 → BitVec 18) (s : Injection) (user out : Parsed)
    (done later : List (BitVec 3)) (ts : List TxFrame) : Prop where
  within : user.current.isSome = s.withinPacket
  stage : Stage mem s user out later
  yields : Yields mem done ts
  merged : Shuffle user.frames ts out.frames

/-- What an edge has to keep. -/
def Kept (mem : BitVec 9 → BitVec 18) (s : Injection) (i : InjectIn) (user out : Parsed)
    (done later : List (BitVec 3)) : Prop :=
  ∃ user' out' done' later' ts', user.takes (s.userEvents i) = some user' ∧
    out.takes (s.sentEvents i) = some out' ∧ done ++ later ++ s.accepted i = done' ++ later' ∧
    Tracks mem (s.step mem i) user' out' done' later' ts'

variable (legal : Legal s i) (clear : Clear mem s i) {user out : Parsed} {done : List (BitVec 3)}
  {ts : List TxFrame} (within : user.current.isSome = s.withinPacket) (yields : Yields mem done ts)
  (merged : Shuffle user.frames ts out.frames)
include legal clear within yields merged

omit clear in
/-- A cycle in which the output is the user's. -/
theorem pass_kept {later later' : List (BitVec 3)} (users : s.selectInject = false)
    (same : out.current = user.current) (requests : later ++ s.accepted i = later')
    (next : ∀ user' out' : Parsed, out'.current = user'.current → Stage mem (s.step mem i) user' out' later') :
    Kept mem s i user out done later := by
  obtain ⟨more, current, taken, taken', few, inside⟩ := user_pass legal within same
  refine ⟨⟨user.frames ++ more, current⟩, ⟨out.frames ++ more, current⟩, done, later', ts, taken, ?_,
    by rw [List.append_assoc, requests], ?_⟩
  · simpa [sentEvents, srcFab, users] using taken'
  · exact ⟨inside, next _ _ rfl, yields, shuffle_more merged few⟩

theorem idle_kept (state : s.state = .waitIdle) (fine : s.noTemplateError = false)
    (users : s.selectInject = false) (ready : s.injectReady = true) (none : s.injectReqLatched = false)
    (same : out.current = user.current) : Kept mem s i user out done [] := by
  cases req : i.injectReq with
  | false =>
      refine pass_kept legal within yields merged users same (by simp [accepted, req]; rfl) ?_
      intro user' out' same'
      exact .idle (by simp [step, fsmStep, legal.rstN, state, decides, none])
        (by simp [step, fsmStep, legal.rstN, state]) (by simp [step, fsmStep, legal.rstN, state, decides, none])
        (by simp [step, requestReady, legal.rstN, req, state, fine, ready])
        (by simp [step, requestReady, legal.rstN, req, state, fine, none]) same'
  | true =>
      refine pass_kept legal within yields merged users same (by simp [accepted, req, ready]; rfl) ?_
      intro user' out' same'
      exact .requested (by simp [step, fsmStep, legal.rstN, state, decides, none])
        (by simp [step, fsmStep, legal.rstN, state]) (by simp [step, fsmStep, legal.rstN, state, decides, none])
        ⟨by simp [step, requestReady, legal.rstN, req], by simp [step, requestReady, legal.rstN, req],
          clear.second req⟩
        (by simp [step, fsmStep, legal.rstN, state, req]) same'

omit yields merged in
/-- A cycle in which the user is silent and the template has the output. -/
theorem hold_kept {sel : BitVec 3} {later : List (BitVec 3)} {ts' : List TxFrame} {out' : Parsed}
    (done' later' : List (BitVec 3)) (holds : Holds mem sel s) (sent : out.takes (s.injSrc i).txEvents = some out')
    (requests : done ++ later = done' ++ later') (yields' : Yields mem done' ts')
    (merged' : Shuffle user.frames ts' out'.frames)
    (next : user.current = none → (s.step mem i).withinPacket = false → i.injectReq = false →
      Stage mem (s.step mem i) user out' later') :
    Kept mem s i user out done later := by
  have quiet := clear.silent holds.select
  obtain ⟨sof, -, eof, error⟩ := txEvents_nil quiet
  have waits : i.injectReq = false := by
    cases req : i.injectReq with
    | false => rfl
    | true => simpa [holds.ready] using legal.request req
  have outside : (s.step mem i).withinPacket = false := by simp [step, detectWithin, sof, holds.within]
  have none : user.current = none := by simpa [holds.within] using within
  refine ⟨user, out', done', later', ts', by rw [userEvents, quiet, takes_nil], ?_,
    by simp [accepted, waits, requests], ?_⟩
  · simpa [sentEvents, srcFab, holds.select] using sent
  · exact ⟨by rw [none, outside]; rfl, next none outside waits, yields', merged'⟩

omit legal clear within yields merged in
theorem Still.events (still : Still s) : (s.injSrc i).txEvents = [] := by
  simp [InternalFabric.txEvents, injSrc, still.sof, still.dvalid, still.eof, still.error]

omit clear within yields merged in
/-- The request stays while the FSM is not at its end. -/
theorem serves_step {sel : BitVec 3} (serves : Serves mem sel s) (waits : i.injectReq = false)
    (fine : s.noTemplateError = false) (stays : s.state ≠ .eof) : Serves mem sel (s.step mem i) :=
  ⟨by simp [step, requestReady, legal.rstN, waits, fine, stays, serves.ready],
    by simp [step, requestReady, legal.rstN, waits, fine, stays, serves.latched], serves.plain⟩

theorem requested_kept {sel : BitVec 3} (state : s.state = .waitIdle) (fine : s.noTemplateError = false)
    (users : s.selectInject = false) (serves : Serves mem sel s) (counter : s.counter = sel ++ 0#6)
    (same : out.current = user.current) : Kept mem s i user out done [sel] := by
  have waits : i.injectReq = false := by
    cases req : i.injectReq with
    | false => rfl
    | true => simpa [serves.ready] using legal.request req
  have serves' := serves_step legal serves waits fine (by simp [state])
  have counter' : (s.step mem i).counter = sel ++ 0#6 := by
    simp [step, fsmStep, legal.rstN, state, waits, counter]
  cases inside : s.withinPacket with
  | true =>
      refine pass_kept legal within yields merged users same (by simp [accepted, waits]; rfl) ?_
      intro user' out' same'
      exact .requested (by simp [step, fsmStep, legal.rstN, state, decides, inside])
        (by simp [step, fsmStep, legal.rstN, state])
        (by simp [step, fsmStep, legal.rstN, state, decides, inside]) serves' counter' same'
  | false =>
      -- The FSM turns to the template; nothing comes from the user in this cycle.
      have turns : s.decides = true := by simp [decides, inside, serves.latched, fine]
      have sof := clear.starts state turns
      have quiet : i.snkFab.dvalid = false ∧ i.snkFab.eof = false ∧ i.snkFab.error = false := by
        have none := mt legal.inside (by simp [inside])
        simpa using none
      have silent : i.snkFab.txEvents = [] := by simp [InternalFabric.txEvents, sof, quiet]
      have outside : (s.step mem i).withinPacket = false := by simp [step, detectWithin, sof, inside]
      have none : user.current = none := by simpa [inside] using within
      refine ⟨user, out, done, [sel], ts, by rw [userEvents, silent, takes_nil],
        by simp [sentEvents, srcFab, users, silent], by simp [accepted, waits], ?_⟩
      refine ⟨by rw [none, outside]; rfl, ?_, yields, merged⟩
      refine .sof (by simp [step, fsmStep, legal.rstN, state, turns]) (by simp [step, fsmStep, legal.rstN, state])
        ?_ ⟨serves', by simp [step, fsmStep, legal.rstN, state, turns], outside⟩ counter'
        (by simp [step, slot, counter]) (by rw [same, none])
      constructor <;> simp [step, fsmStep, legal.rstN, state]

theorem refused_kept {sel : BitVec 3} (state : s.state = .waitIdle) (error : s.noTemplateError = true)
    (still : Still s) (holds : Holds mem sel s) (empty : marked (slot mem sel 0) = false)
    (none : out.current = none) : Kept mem s i user out done [sel] := by
  refine hold_kept legal clear within (done ++ [sel]) [] holds
    (by rw [still.events, takes_nil]) (by simp) (.none yields empty) merged ?_
  intro quiet outside waits
  exact .idle (by simp [step, fsmStep, legal.rstN, state, decides, error])
    (by simp [step, fsmStep, legal.rstN, state]) (by simp [step, fsmStep, legal.rstN, state, decides, error])
    (by simp [step, requestReady, legal.rstN, waits, error, state])
    (by simp [step, requestReady, legal.rstN, waits, error, state]) (by rw [none, quiet])

theorem sof_kept {sel : BitVec 3} (state : s.state = .sof) (fine : s.noTemplateError = false)
    (still : Still s) (holds : Holds mem sel s) (counter : s.counter = sel ++ 0#6)
    (word : s.memData = slot mem sel 0) (none : out.current = none) : Kept mem s i user out done [sel] := by
  refine hold_kept legal clear within done [sel] holds (by rw [still.events, takes_nil]) rfl yields merged ?_
  intro quiet outside waits
  have serves' := serves_step legal holds.toServes waits fine (by simp [state])
  have counter' : (s.step mem i).counter = sel ++ 0#6 := by
    simp only [step, fsmStep, legal.rstN, state]
    split_ifs <;> simp_all
  have word' : (s.step mem i).memData = slot mem sel 0 := by simp [step, slot, counter]
  cases first : marked s.memData with
  | false =>
      refine .refused (by simp [step, fsmStep, legal.rstN, state, first])
        (by simp [step, fsmStep, legal.rstN, state, first]) ?_
        ⟨serves', by simp [step, fsmStep, legal.rstN, state, first, holds.select], outside⟩
        (by rw [← word, first]) none
      constructor <;> simp [step, fsmStep, legal.rstN, state, first, still.sof, still.dvalid, still.eof,
        still.error]
  | true =>
      cases dreq : i.srcDreq with
      | false =>
          refine .sof (by simp [step, fsmStep, legal.rstN, state, first, dreq])
            (by simp [step, fsmStep, legal.rstN, state, first, dreq, fine]) ?_
            ⟨serves', by simp [step, fsmStep, legal.rstN, state, first, dreq, holds.select], outside⟩
            counter' word' none
          constructor <;> simp [step, fsmStep, legal.rstN, state, first, dreq, still.sof, still.dvalid,
            still.eof, still.error]
      | true =>
          have next : (s.step mem i).injSof = true ∧ (s.step mem i).injDvalid = false ∧
              (s.step mem i).firstWord = true := by
            simp [step, fsmStep, legal.rstN, state, first, dreq, still.dvalid]
          exact .words (by simp [step, fsmStep, legal.rstN, state, first, dreq])
            (by simp [step, fsmStep, legal.rstN, state, first, dreq, fine])
            ⟨serves', by simp [step, fsmStep, legal.rstN, state, first, dreq, holds.select], outside⟩
            (by rw [← word, first]) (by simp [step, fsmStep, legal.rstN, state, first, dreq, still.eof])
            (by simp [step, fsmStep, legal.rstN, state, first, dreq, still.error])
            (by simp [counter', next.2.1]) word' (by simp [next.2.1]) (by simp [next.2.2]) (by omega)
            (by omega) ⟨[], rfl, by simp [Shown], by simp [none, next.1]⟩

theorem ending_kept {sel : BitVec 3} {words : List (BitVec 16 × Bool)} (state : s.state = .eof)
    (fine : s.noTemplateError = false) (holds : Holds mem sel s) (valid : marked (slot mem sel 0) = true)
    (sof : s.injSof = false) (dvalid : s.injDvalid = false) (error : s.injError = !s.injEof)
    (whole : IsTemplate mem sel ⟨words, s.injEof⟩) (current : out.current = some words) :
    Kept mem s i user out done [sel] := by
  have sent : out.takes (s.injSrc i).txEvents = some ⟨out.frames ++ [⟨words, s.injEof⟩], none⟩ := by
    obtain ⟨frames, words'⟩ := out
    simp only at current
    cases eof : s.injEof <;>
      simp [InternalFabric.txEvents, injSrc, sof, dvalid, error, eof, current, Parsed.takes, Parsed.take]
  refine hold_kept legal clear within (done ++ [sel]) [] holds sent (by simp) (.frame yields valid whole)
    (.right _ merged) ?_
  intro quiet outside waits
  have still' : Still (s.step mem i) := by
    constructor <;> simp [step, fsmStep, legal.rstN, state, sof, dvalid]
  cases dreq : i.srcDreq with
  | true =>
      exact .idle (by simp [step, fsmStep, legal.rstN, state, dreq])
        (by simp [step, fsmStep, legal.rstN, state, fine]) (by simp [step, fsmStep, legal.rstN, state, dreq])
        (by simp [step, requestReady, legal.rstN, waits, state, dreq])
        (by simp [step, requestReady, legal.rstN, waits, state, dreq]) quiet.symm
  | false =>
      exact .ended (by simp [step, fsmStep, legal.rstN, state, dreq])
        (by simp [step, fsmStep, legal.rstN, state, fine]) still'
        ⟨⟨by simp [step, requestReady, legal.rstN, waits, dreq, fine, holds.ready],
          by simp [step, requestReady, legal.rstN, waits, dreq, fine, holds.latched], holds.plain⟩,
          by simp [step, fsmStep, legal.rstN, state, dreq, holds.select], outside⟩ rfl

theorem ended_kept {sel : BitVec 3} (state : s.state = .eof) (fine : s.noTemplateError = false)
    (still : Still s) (holds : Holds mem sel s) (none : out.current = none) :
    Kept mem s i user out done [] := by
  refine hold_kept legal clear within done [] holds (by rw [still.events, takes_nil]) rfl yields merged ?_
  intro quiet outside waits
  have still' : Still (s.step mem i) := by
    constructor <;> simp [step, fsmStep, legal.rstN, state, still.sof, still.dvalid]
  cases dreq : i.srcDreq with
  | true =>
      exact .idle (by simp [step, fsmStep, legal.rstN, state, dreq])
        (by simp [step, fsmStep, legal.rstN, state, fine]) (by simp [step, fsmStep, legal.rstN, state, dreq])
        (by simp [step, requestReady, legal.rstN, waits, state, dreq])
        (by simp [step, requestReady, legal.rstN, waits, state, dreq]) (by rw [none, quiet])
  | false =>
      exact .ended (by simp [step, fsmStep, legal.rstN, state, dreq])
        (by simp [step, fsmStep, legal.rstN, state, fine]) still'
        ⟨⟨by simp [step, requestReady, legal.rstN, waits, dreq, fine, holds.ready],
          by simp [step, requestReady, legal.rstN, waits, dreq, fine, holds.latched], holds.plain⟩,
          by simp [step, fsmStep, legal.rstN, state, dreq, holds.select], outside⟩ none

omit legal clear within yields merged in
/-- The word on the output is the one of the template. -/
theorem word_shown {sel : BitVec 3} {shown : Nat} (plain : Plain mem sel)
    (valid : marked (slot mem sel 0) = true) (word : s.memData = slot mem sel shown)
    (first : shown = 0 → s.firstWord = true) (later : 2 ≤ shown → s.firstWord = false) :
    ((s.injSrc i).data, (s.injSrc i).bytesel) = templateWord mem sel i.injectUserValue shown := by
  match shown with
  | 0 => simp [injSrc, templateWord, word, first rfl]
  | 1 => simp [injSrc, templateWord, word, plain valid]
  | k + 2 => simp [injSrc, templateWord, word, later (by omega), Bool.and_comm]

omit legal clear within yields merged in
theorem Shown.snoc {sel : BitVec 3} {words : List (BitVec 16 × Bool)} (shown : Shown mem sel words)
    (value : BitVec 16) : Shown mem sel (words ++ [templateWord mem sel value words.length]) := by
  intro k inside
  by_cases before : k < words.length
  · obtain ⟨v, same⟩ := shown k before
    exact ⟨v, by rw [List.getElem_append_left before, same]⟩
  · have last : k = words.length := by
      simp only [List.length_append, List.length_singleton] at inside
      omega
    subst last
    exact ⟨value, by simp⟩

theorem words_kept {sel : BitVec 3} {shown : Nat} {words : List (BitVec 16 × Bool)}
    (state : s.state = .doInject) (fine : s.noTemplateError = false) (holds : Holds mem sel s)
    (valid : marked (slot mem sel 0) = true) (eof : s.injEof = false) (error : s.injError = false)
    (counter : s.counter = sel ++ 0#6 + BitVec.ofNat 9 (shown + s.injDvalid.toNat))
    (word : s.memData = slot mem sel shown) (sof : s.injSof = true → shown = 0 ∧ s.injDvalid = false)
    (first : shown = 0 → s.firstWord = true) (later : 2 ≤ shown → s.firstWord = false)
    (inner : ∀ k, 0 < k → k < shown → marked (slot mem sel k) = false) (length : words.length = shown)
    (sent : Shown mem sel words) (current : out.current = if s.injSof then none else some words) :
    Kept mem s i user out done [sel] := by
  let words' := words ++ if s.injDvalid then [((s.injSrc i).data, (s.injSrc i).bytesel)] else []
  have taken : out.takes (s.injSrc i).txEvents = some ⟨out.frames, some words'⟩ := by
    obtain ⟨frames, open_⟩ := out
    simp only at current
    cases starts : s.injSof with
    | true =>
        obtain ⟨zero, silent⟩ := sof starts
        have empty : words = [] := List.eq_nil_of_length_eq_zero (by omega)
        simp [words', empty, InternalFabric.txEvents, injSrc, starts, silent, eof, error, current, Parsed.takes,
          Parsed.take]
    | false =>
        cases dvalid : s.injDvalid <;>
          simp [words', InternalFabric.txEvents, injSrc, starts, dvalid, eof, error, current, Parsed.takes,
            Parsed.take]
  have length' : words'.length = shown + s.injDvalid.toNat := by
    cases dvalid : s.injDvalid <;> simp [words', dvalid, length]
  have sent' : Shown mem sel words' := by
    cases dvalid : s.injDvalid with
    | false => simpa [words', dvalid] using sent
    | true =>
        have shown_word := word_shown (i := i) holds.plain valid word first later
        simp only [words', dvalid, if_true, shown_word]
        rw [← length]
        exact sent.snoc _
  refine hold_kept legal clear within done [sel] holds taken rfl yields merged ?_
  intro quiet outside waits
  have serves' := serves_step legal holds.toServes waits fine (by simp [state])
  have word' : (s.step mem i).memData = slot mem sel (shown + s.injDvalid.toNat) := by
    simp [step, slot, counter]
  by_cases ends : (marked s.memData && s.injDvalid && !s.firstWord && i.srcDreq) = true
  · -- The last word has just been shown.
    have stepped : (s.step mem i).state = .eof ∧ (s.step mem i).noTemplateError = false ∧
        (s.step mem i).selectInject = true ∧ (s.step mem i).injSof = false ∧
        (s.step mem i).injDvalid = false ∧ (s.step mem i).injError = !(s.step mem i).injEof := by
      simp [step, fsmStep, legal.rstN, state, ends, fine, holds.select, eof, error, bne]
    simp only [Bool.and_eq_true, Bool.not_eq_true'] at ends
    obtain ⟨⟨⟨last, dvalid⟩, unmasked⟩, -⟩ := ends
    have behind : shown ≠ 0 := fun zero => by simp [first zero] at unmasked
    rw [dvalid] at length'
    simp only [Bool.toNat_true] at length'
    have whole : IsTemplate mem sel ⟨words', (s.step mem i).injEof⟩ := by
      refine ⟨sent', by simp only; omega, ?_, ?_⟩
      · simp only [length', Nat.add_sub_cancel]
        rw [← word, last]
      · simp only [length']
        exact fun k pos inside => inner k pos (by omega)
    obtain ⟨state', fine', select', sof', dvalid', error'⟩ := stepped
    exact .ending state' fine' ⟨serves', select', outside⟩ valid sof' dvalid' error' ⟨words', whole, rfl⟩
  · have stepped : (s.step mem i).state = .doInject ∧ (s.step mem i).noTemplateError = false ∧
        (s.step mem i).selectInject = true ∧ (s.step mem i).injSof = false ∧
        (s.step mem i).injEof = false ∧ (s.step mem i).injError = false ∧
        (s.step mem i).injDvalid = i.srcDreq ∧
        (s.step mem i).counter = (if i.srcDreq then s.counter + 1 else s.counter) ∧
        (s.step mem i).firstWord = (s.firstWord && marked s.memData) := by
      simp [step, fsmStep, legal.rstN, state, ends, fine, holds.select, eof, error]
    obtain ⟨state', fine', select', sof', eof', error', dvalid', counter', first'⟩ := stepped
    have fresh : s.injDvalid = true → 0 < shown → marked (slot mem sel shown) = false := by
      intro dvalid pos
      by_contra last
      rw [Bool.not_eq_false] at last
      match shown, pos with
      | 1, _ => simp [(holds.plain valid).1] at last
      | k + 2, _ =>
          have unmasked := later (by omega)
          have asks := clear.last state dvalid unmasked (by rw [word, last])
          exact ends (by simp [word, last, dvalid, unmasked, asks])
    refine .words state' fine' ⟨serves', select', outside⟩ valid eof' error' ?_ word' (by simp [sof']) ?_ ?_ ?_
      ⟨words', length', sent', by simp [sof']⟩
    · rw [counter', dvalid', counter]
      cases i.srcDreq with
      | false => simp
      | true => simp [BitVec.add_assoc, BitVec.ofNat_add]
    · intro zero
      rw [first', word, first (by omega), (by omega : shown = 0), valid]
      rfl
    · intro two
      rw [first']
      by_cases early : 2 ≤ shown
      · simp [later early]
      · obtain ⟨one, dvalid⟩ : shown = 1 ∧ s.injDvalid = true := by
          cases dvalid : s.injDvalid <;> simp [dvalid] at two ⊢ <;> omega
        simp [word, one, (holds.plain valid).1]
    · intro k pos inside
      by_cases before : k < shown
      · exact inner k pos before
      · obtain ⟨same, dvalid⟩ : k = shown ∧ s.injDvalid = true := by
          cases dvalid : s.injDvalid <;> simp [dvalid] at inside ⊢ <;> omega
        rw [same]
        exact fresh dvalid (by omega)

omit within yields merged in
theorem edge_kept {later : List (BitVec 3)} (tracks : Tracks mem s user out done later ts) :
    Kept mem s i user out done later := by
  obtain ⟨within, stage, yields, merged⟩ := tracks
  cases stage with
  | idle state fine users ready none same =>
      exact idle_kept legal clear within yields merged state fine users ready none same
  | requested state fine users serves counter same =>
      exact requested_kept legal clear within yields merged state fine users serves counter same
  | refused state error still holds empty none =>
      exact refused_kept legal clear within yields merged state error still holds empty none
  | sof state fine still holds counter word none =>
      exact sof_kept legal clear within yields merged state fine still holds counter word none
  | words state fine holds valid eof error counter word sof first later inner sent =>
      obtain ⟨words, length, sent, current⟩ := sent
      exact words_kept legal clear within yields merged state fine holds valid eof error counter word sof first
        later inner length sent current
  | ending state fine holds valid sof dvalid error sent =>
      obtain ⟨words, whole, current⟩ := sent
      exact ending_kept legal clear within yields merged state fine holds valid sof dvalid error whole current
  | ended state fine still holds none =>
      exact ended_kept legal clear within yields merged state fine still holds none

end Edge

theorem takes_append (parsed : Parsed) (first second : List FabEvent) :
    parsed.takes (first ++ second) = (parsed.takes first).bind (·.takes second) := List.foldlM_append

variable {mem} in
theorem tracks_run (cycles : List InjectIn) {s : Injection} {user out : Parsed}
    {done later : List (BitVec 3)} {ts : List TxFrame} (legal : Along (step mem) Legal s cycles)
    (clear : Along (step mem) (Clear mem) s cycles) (tracks : Tracks mem s user out done later ts) :
    ∃ user' out' done' later' ts',
      user.takes (collect (step mem) userEvents s cycles) = some user' ∧
      out.takes (collect (step mem) sentEvents s cycles) = some out' ∧
      done ++ later ++ collect (step mem) accepted s cycles = done' ++ later' ∧
      Tracks mem (run (step mem) s cycles) user' out' done' later' ts' := by
  induction cycles generalizing s user out done later ts with
  | nil => exact ⟨user, out, done, later, ts, rfl, rfl, by simp, tracks⟩
  | cons i cycles ih =>
      obtain ⟨user₁, out₁, done₁, later₁, ts₁, taken₁, sent₁, requests₁, tracks₁⟩ :=
        edge_kept legal.1 clear.1 tracks
      obtain ⟨user', out', done', later', ts', taken', sent', requests', tracks'⟩ :=
        ih legal.2 clear.2 tracks₁
      refine ⟨user', out', done', later', ts', ?_, ?_, ?_, tracks'⟩
      · rw [collect_cons, takes_append, taken₁, Option.bind_some, taken']
      · rw [collect_cons, takes_append, sent₁, Option.bind_some, sent']
      · rw [collect_cons, ← List.append_assoc, requests₁, requests']

/-- The output is frame after frame: those of the user, as they came and in their order, and
between them one template for each request that names one; what is accepted has been served when
the next request may come. -/
theorem injection_merges (cycles : List InjectIn) (legal : Along (step mem) Legal {} cycles)
    (clear : Along (step mem) (Clear mem) {} cycles) :
    ∃ user out done later ts,
      Parsed.takes {} (collect (step mem) userEvents {} cycles) = some user ∧
      Parsed.takes {} (collect (step mem) sentEvents {} cycles) = some out ∧
      Shuffle user.frames ts out.frames ∧ Yields mem done ts ∧
      collect (step mem) accepted {} cycles = done ++ later ∧ later.length ≤ 1 ∧
      ((run (step mem) {} cycles).injectReady = true → later = [] ∧ out.current = user.current) := by
  have start : Tracks mem {} {} {} [] [] [] :=
    ⟨rfl, .idle rfl rfl rfl rfl rfl rfl, .nil, .nil⟩
  obtain ⟨user, out, done, later, ts, taken, sent, requests, tracks⟩ := tracks_run cycles legal clear start
  refine ⟨user, out, done, later, ts, taken, sent, tracks.merged, tracks.yields, requests, ?_, ?_⟩
  · cases tracks.stage <;> simp
  · intro ready
    cases tracks.stage with
    | idle _ _ _ _ _ same => exact ⟨rfl, same⟩
    | requested _ _ _ serves => exact nomatch ready.symm.trans serves.ready
    | refused _ _ _ holds => exact nomatch ready.symm.trans holds.ready
    | sof _ _ _ holds => exact nomatch ready.symm.trans holds.ready
    | words _ _ holds => exact nomatch ready.symm.trans holds.ready
    | ending _ _ holds => exact nomatch ready.symm.trans holds.ready
    | ended _ _ _ holds => exact nomatch ready.symm.trans holds.ready

instance (s : Injection) (i : InjectIn) : Decidable (Legal s i) :=
  decidable_of_iff
    (i.rstN = true ∧
      (i.snkFab.sof = true → s.withinPacket = false ∧ i.snkFab.dvalid = false ∧ i.snkFab.eof = false ∧
        i.snkFab.error = false) ∧
      (i.snkFab.dvalid = true ∨ i.snkFab.eof = true ∨ i.snkFab.error = true → s.withinPacket = true) ∧
      ¬(i.snkFab.eof = true ∧ i.snkFab.error = true) ∧ (i.injectReq = true → s.injectReady = true))
    ⟨fun ⟨rstN, sof, inside, ends, request⟩ => ⟨rstN, sof, inside, ends, request⟩,
      fun ⟨rstN, sof, inside, ends, request⟩ => ⟨rstN, sof, inside, ends, request⟩⟩

instance (s : Injection) (i : InjectIn) : Decidable (Clear mem s i) :=
  decidable_of_iff
    ((s.selectInject = true → i.snkFab.txEvents = []) ∧
      (s.state = .waitIdle → s.decides = true → i.snkFab.sof = false) ∧
      (s.state = .doInject → s.injDvalid = true → s.firstWord = false → marked s.memData = true →
        i.srcDreq = true) ∧
      (i.injectReq = true → marked (slot mem i.injectPacketSel 0) = true →
        marked (slot mem i.injectPacketSel 1) = false ∧ user (slot mem i.injectPacketSel 1) = false))
    ⟨fun ⟨silent, starts, last, second⟩ => ⟨silent, starts, last, second⟩,
      fun ⟨silent, starts, last, second⟩ => ⟨silent, starts, last, second⟩⟩

/-- The second template has four words, the third of them the user's; the others have none. -/
def oneTemplate (addr : BitVec 9) : BitVec 18 :=
  if addr = 64 then 0x1aaaa else if addr = 65 then 0x0bbbb else if addr = 66 then 0x20000
  else if addr = 67 then 0x3cc00 else 0

def request (sel : BitVec 3) : InjectIn := { injectReq := true, injectPacketSel := sel }

def sofIn : InjectIn := { snkFab := { sof := true } }

def wordIn (data : BitVec 16) : InjectIn := { snkFab := { dvalid := true, data := data } }

def lastIn (data : BitVec 16) : InjectIn := { snkFab := { dvalid := true, data := data, eof := true } }

/-- A frame of the user, a request while it is under way, one for a template that is not there, and
another frame; the sink pauses before the last word of the template. -/
def mixed : List InjectIn :=
  [sofIn, wordIn 1, request 1, lastIn 2, {}, {}, {}, {}, {}, { injectUserValue := 7, srcDreq := false },
    { injectUserValue := 7 }, {}, {}, {}, request 2, {}, {}, {}, sofIn, lastIn 3]

theorem injection_merges_mixed : ∃ user out done later ts,
    Parsed.takes {} (collect (step oneTemplate) userEvents {} mixed) = some user ∧
    Parsed.takes {} (collect (step oneTemplate) sentEvents {} mixed) = some out ∧
    Shuffle user.frames ts out.frames ∧ Yields oneTemplate done ts ∧
    collect (step oneTemplate) accepted {} mixed = done ++ later ∧ later.length ≤ 1 ∧
    ((run (step oneTemplate) {} mixed).injectReady = true → later = [] ∧ out.current = user.current) :=
  injection_merges oneTemplate mixed (by decide) (by decide)

/-- A frame of the user that starts in the cycle behind a request. -/
def together : List InjectIn :=
  [request 1, sofIn, wordIn 1, {}, {}, {}, {}, {}, {}, {}, wordIn 2, lastIn 3, {}]

/-- The user keeps to the rules and to `snk_dreq_o`; the output starts a frame twice, loses a word
of the user, and goes on with the rest behind the end of the template. -/
theorem frame_torn : Along (step oneTemplate) Legal {} together ∧
    Along (step oneTemplate) (fun s i => i.snkFab.txEvents ≠ [] → s.snkDreq i = true) {} together ∧
    collect (step oneTemplate) userEvents {} together =
      [.sof, .word 1 false, .word 2 false, .word 3 false, .eof] ∧
    collect (step oneTemplate) sentEvents {} together =
      [.sof, .sof, .word 0xaaaa false, .word 0xbbbb false, .word 0 false, .word 0xcc00 true, .eof,
        .word 2 false, .word 3 false, .eof] ∧
    Parsed.takes {} (collect (step oneTemplate) sentEvents {} together) = none := by
  decide +kernel

end Injection

end WrCores.Endpoint
