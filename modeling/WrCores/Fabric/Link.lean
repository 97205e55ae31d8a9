import WrCores.Fabric.SourceSink

/-!
A fabric source wired to a fabric sink. What the user writes and what the sink
shows are read as events, and a list of events as frames. The link keeps two
things in step that the source never compares: `cyc`, which follows the entry at
the head of the source's FIFO whether or not that entry moves, and `cyc_d0`, which
the sink samples only while it is not full. `Phase` is the relation between the two.
-/

namespace WrCores.Fabric

open Clocked Genrams

structure DataWord where
  addr : BitVec 2
  data : BitVec 16
  bytesel : Bool
  deriving DecidableEq, Repr

inductive Event where
  | sof
  | word (w : DataWord)
  | err
  | eof
  deriving DecidableEq, Repr

structure Packet where
  words : List DataWord
  error : Bool
  deriving DecidableEq, Repr

/-- A stream of events read as frames: the finished ones, the one in progress, and
whether every event so far stood where it may. An error outside a frame says nothing. -/
structure Reading where
  done : List Packet
  current : Option Packet
  sound : Bool
  deriving DecidableEq, Repr

namespace Reading

def start : Reading := ⟨[], none, true⟩

def hear (r : Reading) : Event → Reading
  | .sof => match r.current with
    | none => { r with current := some ⟨[], false⟩ }
    | some _ => { r with sound := false }
  | .word w => match r.current with
    | some p => { r with current := some { p with words := p.words ++ [w] } }
    | none => { r with sound := false }
  | .err => match r.current with
    | some p => { r with current := some { p with error := true } }
    | none => r
  | .eof => match r.current with
    | some p => { r with done := r.done ++ [p], current := none }
    | none => { r with sound := false }

def hearAll (r : Reading) (events : List Event) : Reading := events.foldl hear r

@[simp] theorem hearAll_nil (r : Reading) : r.hearAll [] = r := rfl

@[simp] theorem hearAll_cons (r : Reading) (e : Event) (rest : List Event) :
    r.hearAll (e :: rest) = (r.hear e).hearAll rest := rfl

theorem hearAll_append (r : Reading) (first second : List Event) :
    r.hearAll (first ++ second) = (r.hearAll first).hearAll second := List.foldl_append

/-- Between frames an error is not heard; inside one it is heard once. -/
theorem hear_err_outside (r : Reading) (outside : r.current = none) : r.hear .err = r := by
  simp [hear, outside]

theorem hear_err_twice (r : Reading) : (r.hear .err).hear .err = r.hear .err := by
  cases inside : r.current <;> simp [hear, inside]

theorem hear_err_marked (r : Reading) (p : Packet) (inside : r.current = some p)
    (marked : p.error = true) : r.hear .err = r := by
  obtain ⟨done, current, sound⟩ := r
  obtain ⟨words, error⟩ := p
  simp_all [hear]

end Reading

namespace Entry

/-- The pattern the sink takes for an error, whatever the entry's flags say. -/
def isError (e : Entry) : Bool := e.addr == cWrfStatus && (fUnmarshallWrfStatus e.data).error

def word (e : Entry) : DataWord := ⟨e.addr, e.data, e.bytesel⟩

def events (e : Entry) : List Event :=
  (if e.sof then [Event.sof] else []) ++
    ((if e.isError then [Event.err] else if e.dvalid then [Event.word e.word] else []) ++
      (if e.eof then [Event.eof] else []))

structure IsSof (e : Entry) : Prop where
  sof : e.sof = true
  dvalid : e.dvalid = false
  eof : e.eof = false
  plain : e.isError = false

structure IsData (e : Entry) : Prop where
  sof : e.sof = false
  dvalid : e.dvalid = true
  eof : e.eof = false
  plain : e.isError = false

/-- The last entry of a frame: an end of frame, or an error word that ends it. -/
structure IsEnd (e : Entry) : Prop where
  sof : e.sof = false
  eof : e.eof = true
  error : e.isError = e.dvalid

theorem IsSof.events_eq {e : Entry} (h : e.IsSof) : e.events = [.sof] := by
  simp [events, h.sof, h.dvalid, h.eof, h.plain]

theorem IsData.events_eq {e : Entry} (h : e.IsData) : e.events = [.word e.word] := by
  simp [events, h.sof, h.dvalid, h.eof, h.plain]

theorem IsEnd.events_eq {e : Entry} (h : e.IsEnd) :
    e.events = if e.isError then [.err, .eof] else [.eof] := by
  cases dvalid : e.dvalid <;> simp [events, h.sof, h.eof, h.error, dvalid]

end Entry

def eventsOf (entries : List Entry) : List Event := entries.flatMap Entry.events

@[simp] theorem eventsOf_nil : eventsOf [] = [] := rfl

@[simp] theorem eventsOf_cons (e : Entry) (rest : List Entry) :
    eventsOf (e :: rest) = e.events ++ eventsOf rest := rfl

theorem eventsOf_append (first second : List Entry) :
    eventsOf (first ++ second) = eventsOf first ++ eventsOf second := by simp [eventsOf]

/-- Entries that take the writer from outside (`false`) or inside (`true`) a frame to
where the last index says. -/
inductive Shape : Bool → List Entry → Bool → Prop where
  | nil (inside) : Shape inside [] inside
  | sof {e rest writing} : e.IsSof → Shape true rest writing → Shape false (e :: rest) writing
  | data {e rest writing} : e.IsData → Shape true rest writing → Shape true (e :: rest) writing
  | fin {e rest writing} : e.IsEnd → Shape false rest writing → Shape true (e :: rest) writing

/-- Where source and sink stand to each other. `cyc` and `cycD0` are the two
registers, `q` the source FIFO's output, `entries` its contents, `heard` the reading
of everything already pushed into the sink, `told` that of everything written.
The `Left` phases are those in which the entry that moved `cyc` has not moved itself. -/
inductive Phase : (cyc cycD0 : Bool) → (q : Entry) → (entries : List Entry) →
    (writing : Bool) → (heard told : Reading) → Prop where
  | idle {q entries writing heard told} : Shape false entries writing → heard.current = none →
      heard.hearAll (eventsOf entries) = told → Phase false false q entries writing heard told
  | opening {q entries writing heard told} : Shape true entries writing → heard.current = none →
      (entries = [] → q.isError = false) →
      heard.hearAll (.sof :: eventsOf entries) = told → Phase true false q entries writing heard told
  | openingLeft {q e rest writing heard told} : e.IsSof → Shape true rest writing →
      heard.current = none →
      heard.hearAll (.sof :: eventsOf rest) = told → Phase true false q (e :: rest) writing heard told
  | body {q entries writing heard told} {p : Packet} : Shape true entries writing →
      heard.current = some p → (entries = [] → q.isError = false) →
      heard.hearAll (eventsOf entries) = told → Phase true true q entries writing heard told
  | bodyLeft {q e rest writing heard told} {p : Packet} : e.IsSof → Shape true rest writing →
      heard.current = some p →
      heard.hearAll (eventsOf rest) = told → Phase true true q (e :: rest) writing heard told
  | closing {q entries writing heard told} {p : Packet} : Shape false entries writing →
      heard.current = some p → (entries = [] → q.isError = true → p.error = true) →
      heard.hearAll (.eof :: eventsOf entries) = told → Phase false true q entries writing heard told
  | closingLeft {q e rest writing heard told} {p : Packet} : e.IsEnd → Shape false rest writing →
      heard.current = some p →
      heard.hearAll (e.events ++ eventsOf rest) = told →
      Phase false true q (e :: rest) writing heard told

theorem Shape.append {inside writing after : Bool} {entries : List Entry} {e : Entry}
    (shape : Shape inside entries writing) (last : Shape writing [e] after) :
    Shape inside (entries ++ [e]) after := by
  induction shape with
  | nil => exact last
  | sof here _ ih => exact .sof here (ih last)
  | data here _ ih => exact .data here (ih last)
  | fin here _ ih => exact .fin here (ih last)

/-- A write at the user's end changes only what is still to come. -/
theorem Phase.append {cyc cycD0 writing after : Bool} {q q' e : Entry} {entries : List Entry}
    {heard told : Reading} (phase : Phase cyc cycD0 q entries writing heard told)
    (last : Shape writing [e] after) :
    Phase cyc cycD0 q' (entries ++ [e]) after heard (told.hearAll e.events) := by
  have grown : ∀ es : List Entry, eventsOf (es ++ [e]) = eventsOf es ++ e.events := fun es => by
    simp [eventsOf]
  cases phase with
  | idle shape outside owed =>
      exact .idle (shape.append last) outside (by rw [grown, Reading.hearAll_append, owed])
  | opening shape outside _ owed =>
      refine .opening (shape.append last) outside (by simp) ?_
      rw [grown, ← List.cons_append, Reading.hearAll_append, owed]
  | openingLeft isSof shape outside owed =>
      refine .openingLeft isSof (shape.append last) outside ?_
      rw [List.append_eq, grown, ← List.cons_append, Reading.hearAll_append, owed]
  | body shape inside _ owed =>
      exact .body (shape.append last) inside (by simp) (by rw [grown, Reading.hearAll_append, owed])
  | bodyLeft isSof shape inside owed =>
      refine .bodyLeft isSof (shape.append last) inside ?_
      rw [List.append_eq, grown, Reading.hearAll_append, owed]
  | closing shape inside _ owed =>
      refine .closing (shape.append last) inside (by simp) ?_
      rw [grown, ← List.cons_append, Reading.hearAll_append, owed]
  | closingLeft isEnd shape inside owed =>
      refine .closingLeft isEnd (shape.append last) inside ?_
      rw [List.append_eq, grown, ← List.append_assoc, Reading.hearAll_append, owed]

/-- The head of the source's FIFO decides the next `cyc`. -/
def headCyc (cyc : Bool) : List Entry → Bool
  | [] => cyc
  | e :: _ => if e.sof then true else if e.eof then false else cyc

/-- What a sink that is not full pushes. -/
def pushes (cyc cycD0 valid : Bool) (q : Entry) : List Event :=
  let e : Entry :=
    { sof := cyc && !cycD0
      eof := !cyc && cycD0
      bytesel := q.bytesel
      dvalid := q.dvalid && valid && cyc && !(cyc && !cycD0)
      addr := q.addr
      data := q.data }
  if e.sof || e.eof || e.bytesel || e.dvalid then e.events else []

theorem headCyc_sof (cyc : Bool) {e : Entry} (here : e.IsSof) (rest : List Entry) :
    headCyc cyc (e :: rest) = true := by simp [headCyc, here.sof]

theorem headCyc_data (cyc : Bool) {e : Entry} (here : e.IsData) (rest : List Entry) :
    headCyc cyc (e :: rest) = cyc := by simp [headCyc, here.sof, here.eof]

theorem headCyc_end (cyc : Bool) {e : Entry} (here : e.IsEnd) (rest : List Entry) :
    headCyc cyc (e :: rest) = false := by simp [headCyc, here.sof, here.eof]

/-- A full sink takes nothing and samples nothing; the source's `cyc` moves on alone.
The step is excluded that would move it back before the sink has sampled it. -/
theorem Phase.held {cyc cycD0 writing : Bool} {q : Entry} {entries : List Entry}
    {heard told : Reading} (phase : Phase cyc cycD0 q entries writing heard told)
    (sampled : ¬ (cyc ≠ cycD0 ∧ headCyc cyc entries = cycD0)) :
    Phase (headCyc cyc entries) cycD0 q entries writing heard told := by
  cases phase with
  | idle shape outside owed =>
      cases shape with
      | nil => exact .idle (.nil _) outside owed
      | sof here rest =>
          rw [headCyc_sof _ here]
          refine .openingLeft here rest outside ?_
          rwa [eventsOf_cons, here.events_eq] at owed
  | opening shape outside plain owed =>
      cases shape with
      | nil => exact .opening (.nil _) outside plain owed
      | data here rest =>
          rw [headCyc_data _ here]
          exact .opening (.data here rest) outside plain owed
      | fin here rest => exact absurd ⟨by decide, headCyc_end _ here _⟩ sampled
  | openingLeft here rest outside owed =>
      rw [headCyc_sof _ here]
      exact .openingLeft here rest outside owed
  | body shape inside plain owed =>
      cases shape with
      | nil => exact .body (.nil _) inside plain owed
      | data here rest =>
          rw [headCyc_data _ here]
          exact .body (.data here rest) inside plain owed
      | fin here rest =>
          rw [headCyc_end _ here]
          exact .closingLeft here rest inside owed
  | bodyLeft here rest inside owed =>
      rw [headCyc_sof _ here]
      exact .bodyLeft here rest inside owed
  | closing shape inside marked owed =>
      cases shape with
      | nil => exact .closing (.nil _) inside marked owed
      | sof here rest => exact absurd ⟨by decide, headCyc_sof _ here _⟩ sampled
  | closingLeft here rest inside owed =>
      rw [headCyc_end _ here]
      exact .closingLeft here rest inside owed

/-- Once something is in the source's FIFO again, what it showed while empty is forgotten. -/
theorem Phase.show {cyc cycD0 writing : Bool} {q q' : Entry} {entries : List Entry}
    {heard told : Reading} (phase : Phase cyc cycD0 q entries writing heard told)
    (live : entries ≠ []) : Phase cyc cycD0 q' entries writing heard told := by
  cases phase with
  | idle shape outside owed => exact .idle shape outside owed
  | opening shape outside _ owed => exact .opening shape outside (absurd · live) owed
  | openingLeft isSof shape outside owed => exact .openingLeft isSof shape outside owed
  | body shape inside _ owed => exact .body shape inside (absurd · live) owed
  | bodyLeft isSof shape inside owed => exact .bodyLeft isSof shape inside owed
  | closing shape inside _ owed => exact .closing shape inside (absurd · live) owed
  | closingLeft isEnd shape inside owed => exact .closingLeft isEnd shape inside owed

theorem pushes_between (valid : Bool) (q : Entry) :
    pushes false false valid q = if q.bytesel && q.isError then [.err] else [] := by
  cases bytesel : q.bytesel <;> simp [pushes, Entry.events, Entry.isError, bytesel]

theorem pushes_rising (valid : Bool) (q : Entry) :
    pushes true false valid q = .sof :: if q.isError then [.err] else [] := by
  simp [pushes, Entry.events, Entry.isError]

theorem pushes_falling (valid : Bool) (q : Entry) :
    pushes false true valid q = (if q.isError then [.err] else []) ++ [.eof] := by
  simp [pushes, Entry.events, Entry.isError]

theorem pushes_inside_plain (valid : Bool) {q : Entry} (plain : q.isError = false) :
    pushes true true valid q = if q.dvalid && valid then [.word q.word] else [] := by
  have plain' : (q.addr == cWrfStatus && (fUnmarshallWrfStatus q.data).error) = false := plain
  cases dvalid : q.dvalid <;> cases valid <;>
    simp [pushes, Entry.events, Entry.isError, Entry.word, plain', dvalid]

theorem pushes_inside_error {q : Entry} (error : q.isError = true) (dvalid : q.dvalid = true) :
    pushes true true true q = [.err] := by
  have error' : (q.addr == cWrfStatus && (fUnmarshallWrfStatus q.data).error) = true := error
  simp [pushes, Entry.events, Entry.isError, error', dvalid]

theorem Reading.hear_sof_current {r : Reading} (outside : r.current = none) :
    (r.hear .sof).current = some ⟨[], false⟩ := by simp [hear, outside]

theorem Reading.hear_word_current {r : Reading} {p : Packet} (inside : r.current = some p)
    (w : DataWord) : (r.hear (.word w)).current = some { p with words := p.words ++ [w] } := by
  simp [hear, inside]

theorem Reading.hear_err_current {r : Reading} {p : Packet} (inside : r.current = some p) :
    (r.hear .err).current = some { p with error := true } := by simp [hear, inside]

theorem Reading.hear_eof_current {r : Reading} {p : Packet} (inside : r.current = some p) :
    (r.hear .eof).current = none := by simp [hear, inside]

/-- A sink that is not full samples `cyc`, pushes what it sees, and lets the source's
head go unless it is the cycle in which `cyc` has risen. -/
theorem Phase.free {cyc cycD0 writing : Bool} {q : Entry} {entries : List Entry}
    {heard told : Reading} (phase : Phase cyc cycD0 q entries writing heard told)
    (shown : ∀ e rest, entries = e :: rest → q = e) :
    Phase (headCyc cyc entries) cyc q (if cyc && !cycD0 then entries else entries.tail) writing
      (heard.hearAll (pushes cyc cycD0 (!entries.isEmpty) q)) told := by
  cases phase with
  | idle shape outside owed =>
      have deaf : heard.hearAll (pushes false false (!entries.isEmpty) q) = heard := by
        rw [pushes_between]
        split
        · exact heard.hear_err_outside outside
        · rfl
      rw [deaf]
      cases shape with
      | nil => exact .idle (.nil _) outside owed
      | @sof e rest _ here shape =>
          rw [headCyc_sof _ here]
          rw [eventsOf_cons, here.events_eq] at owed
          have plain : q.isError = false := shown e rest rfl ▸ here.plain
          exact .opening shape outside (fun _ => plain) owed
  | opening shape outside plain owed =>
      rw [pushes_rising]
      have inside := Reading.hear_sof_current outside
      cases shape with
      | nil =>
          rw [plain rfl]
          exact .body (.nil _) inside (fun _ => plain rfl) owed
      | @data e rest _ here shape =>
          have plain : q.isError = false := shown e rest rfl ▸ here.plain
          rw [headCyc_data _ here, plain]
          exact .body (.data here shape) inside (by simp) owed
      | @fin e rest _ here shape =>
          obtain rfl := shown e rest rfl
          rw [headCyc_end _ here]
          rw [eventsOf_cons, here.events_eq] at owed
          cases error : q.isError with
          | false =>
              refine .closingLeft here shape inside ?_
              simpa [here.events_eq, error] using owed
          | true =>
              refine .closingLeft here shape (Reading.hear_err_current inside) ?_
              simpa [here.events_eq, error, Reading.hear_err_twice] using owed
  | @openingLeft _ e rest _ _ _ here shape outside owed =>
      have plain : q.isError = false := shown e rest rfl ▸ here.plain
      rw [pushes_rising, headCyc_sof _ here, plain]
      exact .bodyLeft here shape (Reading.hear_sof_current outside) owed
  | body shape inside plain owed =>
      cases shape with
      | nil =>
          rw [pushes_inside_plain _ (plain rfl)]
          simpa [headCyc] using Phase.body (q := q) (.nil true) inside (fun _ => plain rfl) owed
      | @data e rest _ here shape =>
          obtain rfl := shown e rest rfl
          rw [pushes_inside_plain _ here.plain, headCyc_data _ here]
          rw [eventsOf_cons, here.events_eq] at owed
          have pushed : (q.dvalid && !(q :: rest).isEmpty) = true := by simp [here.dvalid]
          rw [if_pos pushed]
          exact .body shape (Reading.hear_word_current inside _) (fun _ => here.plain) owed
      | @fin e rest _ here shape =>
          obtain rfl := shown e rest rfl
          rw [headCyc_end _ here]
          rw [eventsOf_cons, here.events_eq] at owed
          cases error : q.isError with
          | false =>
              have idle : (q.dvalid && !(q :: rest).isEmpty) = false := by simp [← here.error, error]
              rw [pushes_inside_plain _ error, idle]
              refine .closing shape inside (by simp [error]) ?_
              simpa [error] using owed
          | true =>
              have pushed : pushes true true (!(q :: rest).isEmpty) q = [.err] :=
                pushes_inside_error error (here.error ▸ error)
              rw [pushed]
              refine .closing shape (Reading.hear_err_current inside) (by simp) ?_
              simpa [error] using owed
  | @bodyLeft _ e rest _ _ _ _ here shape inside owed =>
      obtain rfl := shown e rest rfl
      rw [headCyc_sof _ here, pushes_inside_plain _ here.plain, here.dvalid]
      exact .body shape inside (fun _ => here.plain) owed
  | @closing _ _ _ _ _ p shape inside marked owed =>
      rw [pushes_falling]
      cases shape with
      | nil =>
          have closed : heard.hearAll ((if q.isError then [.err] else []) ++ [.eof]) =
              heard.hear .eof := by
            cases error : q.isError with
            | false => rfl
            | true => simp [heard.hear_err_marked p inside (marked rfl error)]
          rw [closed]
          exact .idle (.nil _) (Reading.hear_eof_current inside) owed
      | @sof e rest _ here shape =>
          have plain : q.isError = false := shown e rest rfl ▸ here.plain
          rw [headCyc_sof _ here, plain]
          rw [eventsOf_cons, here.events_eq] at owed
          exact .opening shape (Reading.hear_eof_current inside) (fun _ => plain) owed
  | @closingLeft _ e rest _ _ _ p here shape inside owed =>
      obtain rfl := shown e rest rfl
      have pushed : pushes false true (!(q :: rest).isEmpty) q = q.events := by
        rw [pushes_falling, here.events_eq]
        cases q.isError <;> rfl
      rw [headCyc_end _ here, pushed]
      rw [Reading.hearAll_append] at owed
      have outside : (heard.hearAll q.events).current = none := by
        cases error : q.isError with
        | false => simp [here.events_eq, error, Reading.hear_eof_current inside]
        | true =>
            simp [here.events_eq, error, Reading.hear_eof_current (Reading.hear_err_current inside)]
      exact .idle shape outside owed

/-- What the signals of one cycle say. -/
def Decoded.events (u : Decoded) : List Event :=
  (if u.sof then [Event.sof] else []) ++
    ((if u.error then [Event.err] else if u.dvalid then [Event.word ⟨u.addr, u.data, u.bytesel⟩] else []) ++
      (if u.eof then [Event.eof] else []))

/-- What a write asks for. The source takes an error as the end of its frame. -/
def Decoded.asks (u : Decoded) : List Event := { u with eof := u.eof || u.error }.events

/-- The writes that may follow each other: one of sof, data word, eof, error at a time,
and frames that open with sof and end with eof or error. -/
def Decoded.mayFollow (u : Decoded) (writing : Bool) : Bool :=
  match u.sof, u.dvalid, u.eof, u.error with
  | false, false, false, false => true
  | true, false, false, false => !writing
  | false, true, false, false => writing
  | false, false, true, _ => writing
  | false, false, false, true => writing
  | _, _, _, _ => false

def Decoded.leaves (u : Decoded) (writing : Bool) : Bool :=
  if u.sof then true else if u.eof || u.error then false else writing

/-- No write without error_i carries what the sink takes for an error. -/
def Decoded.isPlain (u : Decoded) : Bool :=
  !Source.we u || u.error || !(u.addr == cWrfStatus && (fUnmarshallWrfStatus u.data).error)

/-- The two ends wired together, and what the writer has to remember: whether dreq_o
was high in the cycle before, and whether it is inside a frame. -/
structure Link where
  source : Source
  sink : Sink
  asked : Bool
  writing : Bool

structure LinkIn where
  user : Decoded
  dreqI : Bool

namespace Link

def reset : Link := ⟨Source.reset, Sink.reset, true, false⟩

def stall (s : Link) : Bool := s.sink.stall s.source.srcO

def step (s : Link) (i : LinkIn) : Link where
  source := s.source.step i.user s.stall
  sink := s.sink.step s.source.srcO i.dreqI
  asked := s.source.dreqO
  writing := i.user.leaves s.writing

def written (_ : Link) (i : LinkIn) : List Event := i.user.asks

def shown (s : Link) (_ : LinkIn) : List Event := s.sink.out.events

def pushed (s : Link) (_ : LinkIn) : List Event :=
  if s.sink.we s.source.srcO then (s.sink.fin s.source.srcO).events else []

structure Obeys (s : Link) (i : LinkIn) : Prop where
  asked : Source.we i.user = true → s.asked = true
  framed : i.user.mayFollow s.writing = true

/-- `cyc` goes back to what a full sink last sampled: the sink has seen neither edge. -/
def Missed (s : Link) : Prop :=
  s.sink.full = true ∧ s.source.cycInt ≠ s.sink.cycD0 ∧ s.source.nextCyc = s.sink.cycD0

instance (s : Link) (i : LinkIn) : Decidable (s.Obeys i) :=
  decidable_of_iff (_ ∧ _) ⟨fun h => ⟨h.1, h.2⟩, fun h => ⟨h.1, h.2⟩⟩

instance (s : Link) : Decidable s.Missed := inferInstanceAs (Decidable (_ ∧ _))

/-- What is still in the sink: the output register, if it has not been shown, and the FIFO. -/
def sinkHolds (s : Link) : List Event :=
  (if s.sink.rdD0 then s.sink.foutReg.events else []) ++ eventsOf s.sink.fifo.contents

/-- What the sink has not yet been given: an edge of `cyc` it has not sampled and the
source's FIFO, less the part of its head that `cyc` already shows. -/
def owes (cyc cycD0 : Bool) : List Entry → List Event
  | [] => if cyc && !cycD0 then [Event.sof] else if !cyc && cycD0 then [Event.eof] else []
  | e :: rest =>
      (if cyc && !cycD0 then [Event.sof] else if !cyc && cycD0 && !e.eof then [Event.eof] else []) ++
        ((if cyc && e.sof then [] else e.events) ++ eventsOf rest)

def inFlight (s : Link) : List Event :=
  s.sinkHolds ++ owes s.source.cycInt s.sink.cycD0 s.source.fifo.contents

end Link

theorem Phase.told_eq {cyc cycD0 writing : Bool} {q : Entry} {entries : List Entry}
    {heard told : Reading} (phase : Phase cyc cycD0 q entries writing heard told) :
    heard.hearAll (Link.owes cyc cycD0 entries) = told := by
  cases phase with
  | idle shape outside owed => cases entries <;> simpa [Link.owes] using owed
  | opening shape outside _ owed =>
      cases shape with
      | nil => simpa [Link.owes] using owed
      | data here rest => simpa [Link.owes, here.sof] using owed
      | fin here rest => simpa [Link.owes, here.sof] using owed
  | openingLeft here rest outside owed => simpa [Link.owes, here.sof] using owed
  | body shape inside _ owed =>
      cases shape with
      | nil => simpa [Link.owes] using owed
      | data here rest => simpa [Link.owes, here.sof] using owed
      | fin here rest => simpa [Link.owes, here.sof] using owed
  | bodyLeft here rest inside owed => simpa [Link.owes, here.sof] using owed
  | closing shape inside _ owed =>
      cases shape with
      | nil => simpa [Link.owes] using owed
      | sof here rest => simpa [Link.owes, here.eof] using owed
  | closingLeft here rest inside owed => simpa [Link.owes, here.eof] using owed

namespace Link

/-- What an error write puts into the FIFO is what the sink takes for an error. -/
theorem fin_isError (u : Decoded) (plain : u.isPlain = true) (we : Source.we u = true) :
    (Source.fin u).isError = u.error := by
  cases error : u.error with
  | false => simpa [Decoded.isPlain, Source.fin, Entry.isError, error, we, imp_iff_not_or] using plain
  | true =>
      have marked : (fUnmarshallWrfStatus (fMarshallWrfStatus Source.errStatus)).error = true := by
        rw [unmarshall_marshall]
        rfl
      simp [Source.fin, Entry.isError, error, marked]

theorem fin_events (u : Decoded) (plain : u.isPlain = true) (we : Source.we u = true) :
    (Source.fin u).events = u.asks := by
  rw [Entry.events, fin_isError u plain we]
  cases error : u.error <;>
    simp [Decoded.asks, Decoded.events, Entry.word, Source.fin, error]

/-- The entry of a lawful write stands where the grammar has it. -/
theorem fin_shape {u : Decoded} {writing : Bool} (lawful : u.mayFollow writing = true)
    (plain : u.isPlain = true) (we : Source.we u = true) :
    Shape writing [Source.fin u] (u.leaves writing) := by
  have error_eq := fin_isError u plain we
  obtain ⟨addr, data, dvalid, sof, eof, error, bytesel⟩ := u
  cases sof with
  | true =>
      cases dvalid <;> cases eof <;> cases error <;> cases writing <;>
        simp [Decoded.mayFollow] at lawful
      exact .sof ⟨rfl, rfl, rfl, error_eq⟩ (.nil _)
  | false =>
      cases dvalid with
      | true =>
          cases eof <;> cases error <;> cases writing <;> simp [Decoded.mayFollow] at lawful
          exact .data ⟨rfl, rfl, rfl, error_eq⟩ (.nil _)
      | false =>
          cases eof <;> cases error <;> cases writing <;>
            simp [Decoded.mayFollow, Source.we] at lawful we
          all_goals exact .fin ⟨rfl, rfl, error_eq⟩ (.nil _)

/-- A cycle without a write asks for nothing and stays where it was. -/
theorem idle_write {u : Decoded} (we : Source.we u = false) (writing : Bool) :
    u.asks = [] ∧ u.leaves writing = writing := by
  simp only [Source.we, Bool.or_eq_false_iff] at we
  obtain ⟨⟨⟨sof, eof⟩, error⟩, dvalid⟩ := we
  simp [Decoded.asks, Decoded.events, Decoded.leaves, sof, eof, error, dvalid]

/-- What the FIFOs need, apart from the phase: both are valid, and a writer that was
asked finds room. -/
structure Roomy (s : Link) : Prop where
  source : s.source.fifo.Valid cFifoSize
  sink : s.sink.fifo.Valid cFifoSize
  room : s.asked = true → s.source.fifo.pointer ≤ 13

theorem reset_roomy : reset.Roomy :=
  ⟨ShiftregFifo.reset_valid _ (by decide) _, ShiftregFifo.reset_valid _ (by decide) _,
    fun _ => Nat.zero_le 13⟩

theorem pointer_step (s : ShiftregFifo Entry) (d : Entry) (we rd : Bool) :
    (s.step cFifoSize d we rd).pointer ≤ s.pointer + 1 := by
  simp only [ShiftregFifo.step]
  split
  · split <;> omega
  · omega

theorem step_roomy (s : Link) (i : LinkIn) (roomy : s.Roomy) : (s.step i).Roomy := by
  refine ⟨ShiftregFifo.step_valid _ _ _ _ _ roomy.source,
    ShiftregFifo.step_valid _ _ _ _ _ roomy.sink, fun asked => ?_⟩
  have below := roomy.source.bounded
  have grows := pointer_step s.source.fifo (Source.fin i.user) (Source.we i.user) (!s.stall)
  have low : s.source.fifo.pointer ≤ 12 := by
    simp [step, Source.dreqO, Source.full, ShiftregFifo.almostFullO, ShiftregFifo.pointerFull,
      cFifoSize] at asked below
    omega
  exact grows.trans (by omega)

theorem not_full_room (s : ShiftregFifo Entry) (room : s.almostFullO cFifoSize = false) :
    s.pointerFull cFifoSize = false := by
  simp only [ShiftregFifo.almostFullO, Bool.or_eq_false_iff] at room
  exact room.1.1

/-- The sink's FIFO and output register lose nothing and show everything once. -/
theorem sink_balanced (s : Link) (i : LinkIn) (roomy : s.Roomy) :
    s.sinkHolds ++ s.pushed i = s.shown i ++ (s.step i).sinkHolds := by
  have shown_eq : s.shown i = if s.sink.rdD0 then s.sink.foutReg.events else [] := by
    cases rdD0 : s.sink.rdD0 <;>
      simp [shown, Decoded.events, Sink.out, Sink.postSof, Entry.events, Entry.isError, Entry.word,
        rdD0]
  have room : s.sink.we s.source.srcO = true → s.sink.fifo.pointerFull cFifoSize = false := by
    intro we
    apply not_full_room
    simp only [Sink.we, Bool.and_eq_true, Bool.not_eq_true'] at we
    exact we.2
  have held := ShiftregFifo.contents_step cFifoSize s.sink.fifo (s.sink.fin s.source.srcO)
    (s.sink.we s.source.srcO) (s.sink.rd i.dreqI) roomy.sink (by decide)
  have added : eventsOf (if s.sink.we s.source.srcO &&
      (s.sink.rd i.dreqI || !s.sink.fifo.pointerFull cFifoSize)
      then [s.sink.fin s.source.srcO] else []) = s.pushed i := by
    cases we : s.sink.we s.source.srcO with
    | false => simp [pushed, we]
    | true => simp [pushed, we, room we]
  have moved : eventsOf s.sink.fifo.contents =
      (if s.sink.rd i.dreqI then s.sink.fifo.qO.events else []) ++
        eventsOf (if s.sink.rd i.dreqI then s.sink.fifo.contents.tail else s.sink.fifo.contents) := by
    cases rd : s.sink.rd i.dreqI with
    | false => simp
    | true =>
        have live : s.sink.fifo.qValidO = true := by
          simp only [Sink.rd, Bool.and_eq_true] at rd
          exact rd.1.1
        rw [ShiftregFifo.qValid_iff] at live
        obtain ⟨e, rest, full⟩ := List.exists_cons_of_ne_nil live
        simp [full, ShiftregFifo.head_contents _ _ _ full]
  have after : (s.step i).sinkHolds =
      (if s.sink.rd i.dreqI then s.sink.fifo.qO.events else []) ++
        eventsOf (s.sink.fifo.step cFifoSize (s.sink.fin s.source.srcO)
          (s.sink.we s.source.srcO) (s.sink.rd i.dreqI)).contents := by
    cases rd : s.sink.rd i.dreqI <;> simp [sinkHolds, step, Sink.step, rd]
  rw [after, held, eventsOf_append, added, shown_eq, sinkHolds, moved]
  simp

theorem valid_eq (s : ShiftregFifo Entry) : s.qValidO = !s.contents.isEmpty := by
  have live := s.qValid_iff
  cases valid : s.qValidO <;> simp_all

/-- A sink that is not full pushes what `cyc` and the source's head say. -/
theorem pushed_free (s : Link) (i : LinkIn) (free : s.sink.full = false) :
    s.pushed i = pushes s.source.cycInt s.sink.cycD0 (!s.source.fifo.contents.isEmpty)
      s.source.fifo.qO := by
  have entry : s.sink.fin s.source.srcO =
      { sof := s.source.cycInt && !s.sink.cycD0
        eof := !s.source.cycInt && s.sink.cycD0
        bytesel := s.source.fifo.qO.bytesel
        dvalid := s.source.fifo.qO.dvalid && (!s.source.fifo.contents.isEmpty) &&
          s.source.cycInt && !(s.source.cycInt && !s.sink.cycD0)
        addr := s.source.fifo.qO.addr
        data := s.source.fifo.qO.data } := by
    cases bytesel : s.source.fifo.qO.bytesel <;>
      simp [Sink.fin, Source.srcO, Sink.stall, free, valid_eq, bytesel]
  simp only [pushed, Sink.we, entry, free, Bool.not_false, Bool.and_true, pushes]

theorem pushed_full (s : Link) (i : LinkIn) (full : s.sink.full = true) : s.pushed i = [] := by
  simp [pushed, Sink.we, full]

theorem nextCyc_eq (s : Source) : s.nextCyc = headCyc s.cycInt s.fifo.contents := by
  cases held : s.fifo.contents with
  | nil => simp [Source.nextCyc, valid_eq, held, headCyc]
  | cons e rest =>
      simp [Source.nextCyc, valid_eq, held, headCyc, ShiftregFifo.head_contents _ _ _ held]

/-- The link's part of one edge: everything but the write. -/
theorem moved_phase (s : Link) {heard told : Reading} (i : LinkIn) (seen : ¬ s.Missed)
    (phase : Phase s.source.cycInt s.sink.cycD0 s.source.fifo.qO s.source.fifo.contents s.writing
      heard told) :
    Phase s.source.nextCyc (s.sink.step s.source.srcO i.dreqI).cycD0 s.source.fifo.qO
      (if s.stall then s.source.fifo.contents else s.source.fifo.contents.tail) s.writing
      (heard.hearAll (s.pushed i)) told := by
  rw [nextCyc_eq]
  cases full : s.sink.full with
  | true =>
      have stalled : s.stall = true := by simp [stall, Sink.stall, full]
      have sampled : (s.sink.step s.source.srcO i.dreqI).cycD0 = s.sink.cycD0 := by
        simp [Sink.step, full]
      rw [stalled, sampled, pushed_full s i full]
      refine phase.held fun missed => seen ⟨full, missed.1, ?_⟩
      rw [nextCyc_eq]
      exact missed.2
  | false =>
      have stalled : s.stall = (s.source.cycInt && !s.sink.cycD0) := by
        simp [stall, Sink.stall, full, Source.srcO]
      have sampled : (s.sink.step s.source.srcO i.dreqI).cycD0 = s.source.cycInt := by
        simp [Sink.step, full, Source.srcO]
      rw [stalled, sampled, pushed_free s i full]
      exact phase.free fun e rest held => ShiftregFifo.head_contents _ e rest held

/-- A run in which the writer obeys dreq_o and the frame grammar, writes nothing that
looks like an error, and no pair of edges of `cyc` falls into one full stretch of the sink. -/
structure Sampled (s : Link) (i : LinkIn) : Prop where
  obeys : s.Obeys i
  plain : i.user.isPlain = true
  seen : ¬ s.Missed

instance (s : Link) (i : LinkIn) : Decidable (s.Sampled i) :=
  decidable_of_iff (_ ∧ _ ∧ _) ⟨fun h => ⟨h.1, h.2.1, h.2.2⟩, fun h => ⟨h.1, h.2, h.3⟩⟩

theorem step_phase (s : Link) (i : LinkIn) {heard told : Reading} (roomy : s.Roomy)
    (sampled : s.Sampled i)
    (phase : Phase s.source.cycInt s.sink.cycD0 s.source.fifo.qO s.source.fifo.contents s.writing
      heard told) :
    Phase (s.step i).source.cycInt (s.step i).sink.cycD0 (s.step i).source.fifo.qO
      (s.step i).source.fifo.contents (s.step i).writing
      (heard.hearAll (s.pushed i)) (told.hearAll (s.written i)) := by
  have moved := moved_phase s i sampled.seen phase
  have held := ShiftregFifo.contents_step cFifoSize s.source.fifo (Source.fin i.user)
    (Source.we i.user) (!s.stall) roomy.source (by decide)
  have same : (if !s.stall then s.source.fifo.contents.tail else s.source.fifo.contents) =
      if s.stall then s.source.fifo.contents else s.source.fifo.contents.tail := by
    cases s.stall <;> rfl
  rw [same] at held
  cases we : Source.we i.user with
  | true =>
      have room : s.source.fifo.pointerFull cFifoSize = false := by
        have low := roomy.room (sampled.obeys.asked we)
        simp only [ShiftregFifo.pointerFull, cFifoSize, beq_eq_false_iff_ne]
        omega
      have after : (s.step i).source.fifo.contents =
          (if s.stall then s.source.fifo.contents else s.source.fifo.contents.tail) ++
            [Source.fin i.user] := by
        simpa [step, Source.step, we, room] using held
      rw [after, written, ← fin_events i.user sampled.plain we]
      exact moved.append (fin_shape sampled.obeys.framed sampled.plain we)
  | false =>
      obtain ⟨nothing, stays⟩ := idle_write we s.writing
      have after : (s.step i).source.fifo.contents =
          if s.stall then s.source.fifo.contents else s.source.fifo.contents.tail := by
        simpa [step, Source.step, we] using held
      have same_writing : (s.step i).writing = s.writing := stays
      rw [written, nothing, same_writing, Reading.hearAll_nil]
      by_cases drained : (s.step i).source.fifo.contents = []
      · have stale : (s.step i).source.fifo.qO = s.source.fifo.qO := by
          simp only [step, Source.step, we] at drained ⊢
          exact ShiftregFifo.stale_step _ _ _ _ roomy.source drained
        rw [stale, after]
        exact moved
      · rw [after] at drained ⊢
        exact moved.show drained

/-- Over a whole run the phase links what was pushed into the sink to what was written. -/
theorem run_phase (s : Link) (inputs : List LinkIn) {heard told : Reading} (roomy : s.Roomy)
    (phase : Phase s.source.cycInt s.sink.cycD0 s.source.fifo.qO s.source.fifo.contents s.writing
      heard told) (run_ok : Along step Sampled s inputs) :
    (heard.hearAll (collect step pushed s inputs)).hearAll
        (owes (run step s inputs).source.cycInt (run step s inputs).sink.cycD0
          (run step s inputs).source.fifo.contents) =
      told.hearAll (collect step written s inputs) := by
  induction inputs generalizing s heard told with
  | nil => exact phase.told_eq
  | cons i rest ih =>
      have later := ih (s.step i) (step_roomy s i roomy) (step_phase s i roomy run_ok.1 phase)
        run_ok.2
      simpa [Reading.hearAll_append] using later

theorem asks_sound {r : Reading} {u : Decoded} {writing : Bool} (sound : r.sound = true)
    (open_iff : r.current.isSome = writing) (lawful : u.mayFollow writing = true) :
    (r.hearAll u.asks).sound = true ∧ (r.hearAll u.asks).current.isSome = u.leaves writing := by
  obtain ⟨addr, data, dvalid, sof, eof, error, bytesel⟩ := u
  obtain ⟨done, current, ok⟩ := r
  cases current <;> cases dvalid <;> cases sof <;> cases eof <;> cases error <;>
    simp_all [Decoded.mayFollow, Decoded.asks, Decoded.events, Decoded.leaves, Reading.hear,
      ← open_iff]

/-- What a lawful writer asks for are well-formed frames. -/
theorem written_sound (s : Link) (inputs : List LinkIn) {r : Reading} (sound : r.sound = true)
    (open_iff : r.current.isSome = s.writing) (run_ok : Along step Sampled s inputs) :
    (r.hearAll (collect step written s inputs)).sound = true := by
  induction inputs generalizing s r with
  | nil => exact sound
  | cons i rest ih =>
      obtain ⟨still, tracks⟩ := asks_sound sound open_iff run_ok.1.obeys.framed
      simpa [Reading.hearAll_append, written] using ih (s.step i) still tracks run_ok.2

end Link

namespace Reading

theorem hear_grows (r : Reading) (e : Event) :
    r.done <+: (r.hear e).done ∧ ((r.hear e).sound = true → r.sound = true) := by
  cases e <;> cases inside : r.current <;> simp [hear, inside]

/-- Hearing more never takes a finished frame back and never mends a broken stream. -/
theorem hearAll_grows (r : Reading) (events : List Event) :
    r.done <+: (r.hearAll events).done ∧ ((r.hearAll events).sound = true → r.sound = true) := by
  induction events generalizing r with
  | nil => exact ⟨List.prefix_refl _, id⟩
  | cons e rest ih =>
      obtain ⟨done_here, sound_here⟩ := r.hear_grows e
      obtain ⟨done_later, sound_later⟩ := ih (r.hear e)
      exact ⟨done_here.trans done_later, fun sound => sound_here (sound_later sound)⟩

end Reading

namespace Link

/-- What the sink shows, together with what is still in flight, reads as the frames that
were written: every frame once, in order, with its words and its error mark. At any
moment the frames already shown in full are the first of those written. -/
theorem frames_linked (inputs : List LinkIn) (run_ok : Along step Sampled reset inputs) :
    let shownEvents := collect step shown reset inputs
    let told := Reading.start.hearAll (collect step written reset inputs)
    Reading.start.hearAll (shownEvents ++ (run step reset inputs).inFlight) = told ∧
      told.sound = true ∧ (Reading.start.hearAll shownEvents).sound = true ∧
      (Reading.start.hearAll shownEvents).done <+: told.done := by
  have phase : Phase reset.source.cycInt reset.sink.cycD0 reset.source.fifo.qO
      reset.source.fifo.contents reset.writing Reading.start Reading.start :=
    .idle (.nil _) rfl rfl
  have linked := run_phase reset inputs reset_roomy phase run_ok
  have balance := run_ok.conserves Roomy sinkHolds pushed shown
    (fun s i roomy _ => step_roomy s i roomy) (fun s i roomy _ => sink_balanced s i roomy)
    reset_roomy
  have nothing : reset.sinkHolds = [] := rfl
  rw [nothing, List.nil_append] at balance
  have whole : Reading.start.hearAll
      (collect step shown reset inputs ++ (run step reset inputs).inFlight) =
        Reading.start.hearAll (collect step written reset inputs) := by
    rw [inFlight, ← List.append_assoc, ← balance, Reading.hearAll_append, linked]
  have sound := written_sound reset inputs (r := Reading.start) rfl rfl run_ok
  have grows := (Reading.start.hearAll (collect step shown reset inputs)).hearAll_grows
    (run step reset inputs).inFlight
  rw [← Reading.hearAll_append, whole] at grows
  exact ⟨whole, sound, grows.2 sound, grows.1⟩

/-- A frame of `count` zero words, ended by an error or by eof. -/
def userFrame (count : Nat) (error : Bool) : List Decoded :=
  let quiet : Decoded := ⟨0, 0, false, false, false, false, false⟩
  { quiet with sof := true } :: List.replicate count { quiet with dvalid := true } ++
    [{ quiet with eof := !error, error := error }]

/-- An errored frame and a good one behind it. -/
def twoFrames (dreqI : Bool) : List LinkIn :=
  (userFrame 12 true ++ userFrame 1 false).map fun u => ⟨u, dreqI⟩

def drain : List LinkIn :=
  List.replicate 19 ⟨⟨0, 0, false, false, false, false, false⟩, true⟩

/-- The sink fills up with the error word. `cyc` has just fallen, the next sof is
already at the head of the source's FIFO and raises it again, and the sink, which
does not look while it is full, sees one frame. -/
theorem frames_merged :
    let zero : DataWord := ⟨0, 0, false⟩
    Along step Obeys reset (twoFrames false ++ drain) ∧
      (∀ i ∈ twoFrames false ++ drain, i.user.isPlain = true) ∧
      (run step reset (twoFrames false ++ drain)).inFlight = [] ∧
      Reading.start.hearAll (collect step written reset (twoFrames false ++ drain)) =
        ⟨[⟨List.replicate 12 zero, true⟩, ⟨[zero], false⟩], none, true⟩ ∧
      Reading.start.hearAll (collect step shown reset (twoFrames false ++ drain)) =
        ⟨[⟨List.replicate 13 zero, true⟩], none, true⟩ := by
  decide

theorem frames_linked_drained :
    Along step Sampled reset (twoFrames true ++ drain) ∧
      (Reading.start.hearAll (collect step shown reset (twoFrames true ++ drain))).done <+:
        (Reading.start.hearAll (collect step written reset (twoFrames true ++ drain))).done :=
  have sampled : Along step Sampled reset (twoFrames true ++ drain) := by decide
  ⟨sampled, (frames_linked _ sampled).2.2.2⟩

end Link

end WrCores.Fabric
