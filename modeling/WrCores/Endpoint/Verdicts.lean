import WrCores.Endpoint.MatchBuffer

/-!
The verdicts of the packet filter over whole runs. Frames are numbered as they start at the receive
buffer, verdicts as their `done` pulses come, and verdict `k` is the one of frame `k`. The sofs leave the
receive buffer in the order of the frames it accepted, so that the `j`th entry taken out of the match
buffer goes to the `j`th accepted frame.
-/

namespace WrCores.Endpoint.RxMatch

open Clocked Genrams

/-- Which frames the buffer accepted, the verdicts, the last verdict that set `mbuf_we`, the sofs that
reached the status insertion and the entries it took. -/
structure Observer where
  frames : List Bool := []
  verdicts : List MatchEntry := []
  latest : MatchEntry := {}
  shown : Nat := 0
  taken : List MatchEntry := []
  deriving DecidableEq, Repr

/-- The numbers of the frames in the buffer. -/
def accepted (frames : List Bool) : List Nat := (List.range frames.length).filter fun k => frames.getD k false

def observe (s : RxMatch) (o : Observer) (i : RxMatchIn) : Observer where
  frames := if i.snkFab.sof then o.frames ++ [s.buffer.accepts (s.bufferIn i)] else o.frames
  verdicts := if i.pfilterDone then o.verdicts ++ [mbufD i] else o.verdicts
  latest := if i.pfilterDone && !s.buffer.dropped then mbufD i else o.latest
  shown := o.shown + s.buffer.srcFab.sof.toNat
  taken := if s.mbufRd i then o.taken ++ [s.mbuf.qO] else o.taken

def watch (so : RxMatch × Observer) (i : RxMatchIn) : RxMatch × Observer := (so.1.step i, so.1.observe so.2 i)

/-- A frame starts behind the end of the one before and not before the verdict of that one; a verdict
comes behind the start of its frame, and not while another one waits for room; the outputs of the filter
hold until the entry is written. -/
structure Fits (so : RxMatch × Observer) (i : RxMatchIn) : Prop where
  start : i.snkFab.sof = true → so.1.buffer.state = .waitFrame ∧
    so.2.frames.length = so.2.verdicts.length + i.pfilterDone.toNat
  verdict : i.pfilterDone = true → so.2.frames.length = so.2.verdicts.length + 1 ∧
    (so.1.mbufWe = true → so.1.buffer.dropped = false → (so.1.mbufRd i || !so.1.mbufFull) = true)
  hold : so.1.mbufWe = true → (so.1.mbufRd i || !so.1.mbufFull) = true → mbufD i = so.2.latest

instance (so : RxMatch × Observer) (i : RxMatchIn) : Decidable (Fits so i) :=
  decidable_of_iff
    ((i.snkFab.sof = true → so.1.buffer.state = .waitFrame ∧
        so.2.frames.length = so.2.verdicts.length + i.pfilterDone.toNat) ∧
      (i.pfilterDone = true → so.2.frames.length = so.2.verdicts.length + 1 ∧
        (so.1.mbufWe = true → so.1.buffer.dropped = false → (so.1.mbufRd i || !so.1.mbufFull) = true)) ∧
      (so.1.mbufWe = true → (so.1.mbufRd i || !so.1.mbufFull) = true → mbufD i = so.2.latest))
    ⟨fun ⟨start, verdict, hold⟩ => ⟨start, verdict, hold⟩, fun fits => ⟨fits.start, fits.verdict, fits.hold⟩⟩

/-! ### The frames and their verdicts -/

theorem accepted_append (frames : List Bool) (a : Bool) :
    accepted (frames ++ [a]) = accepted frames ++ if a then [frames.length] else [] := by
  have same : ∀ k ∈ List.range frames.length, (frames ++ [a]).getD k false = frames.getD k false := by
    intro k inside
    simp only [List.mem_range] at inside
    simp [List.getD, List.getElem?_append_left inside]
  rw [accepted, List.length_append, List.length_singleton, List.range_succ, List.filter_append,
    List.filter_congr same, accepted]
  cases a <;> simp [List.getD]

theorem accepted_lt {frames : List Bool} {k : Nat} (inside : k ∈ accepted frames) : k < frames.length := by
  simp only [accepted, List.mem_filter, List.mem_range] at inside
  exact inside.1

/-- The verdicts of the accepted frames, as far as they are there. -/
def owed (frames : List Bool) (verdicts : List MatchEntry) : List (Option MatchEntry) :=
  (accepted frames).map fun k => verdicts[k]?

variable {frames : List Bool} {verdicts : List MatchEntry}

theorem owed_verdict (same : frames.length = verdicts.length) (a : Bool) (v : MatchEntry) :
    owed (frames ++ [a]) (verdicts ++ [v]) = owed frames verdicts ++ if a then [some v] else [] := by
  have kept : (accepted frames).map (fun k => (verdicts ++ [v])[k]?) = owed frames verdicts := by
    apply List.map_congr_left
    intro k inside
    have := accepted_lt inside
    rw [List.getElem?_append_left (by omega)]
  rw [owed, accepted_append, List.map_append, kept]
  cases a <;> simp [same]

theorem owed_start (same : frames.length = verdicts.length) (a : Bool) :
    owed (frames ++ [a]) verdicts = owed frames verdicts ++ if a then [none] else [] := by
  rw [owed, accepted_append, List.map_append, ← owed]
  cases a <;> simp [same]

/-- The entries are the verdicts of the accepted frames; the last frame may still wait for its own. -/
inductive Tracks (dropped : Bool) (entries : List MatchEntry) : List Bool → List MatchEntry → Prop
  | closed {frames : List Bool} {verdicts : List MatchEntry} : frames.length = verdicts.length →
      owed frames verdicts = entries.map some → Tracks dropped entries frames verdicts
  | opened {frames : List Bool} {verdicts : List MatchEntry} (a : Bool) : frames.length = verdicts.length →
      owed frames verdicts = entries.map some → dropped = !a → Tracks dropped entries (frames ++ [a]) verdicts

variable {dropped : Bool} {entries : List MatchEntry}

/-- A verdict behind the start of its frame counts exactly if the frame was accepted. -/
theorem Tracks.verdict (tracks : Tracks dropped entries frames verdicts) (v : MatchEntry)
    (waiting : frames.length = verdicts.length + 1) :
    frames.length = (verdicts ++ [v]).length ∧
      owed frames (verdicts ++ [v]) = (entries ++ if dropped then [] else [v]).map some := by
  cases tracks with
  | closed same all => omega
  | opened a same all flag =>
      constructor
      · simp [same]
      · rw [owed_verdict same, all, flag]
        cases a <;> simp

theorem Tracks.same (tracks : Tracks dropped entries frames verdicts) (past : frames.length = verdicts.length) :
    owed frames verdicts = entries.map some := by
  cases tracks with
  | closed same all => exact all
  | opened a same all flag =>
      simp at past
      omega

/-- Entries come in the order of the frames. -/
theorem Tracks.own (tracks : Tracks dropped entries frames verdicts) {j k : Nat}
    (frame : (accepted frames)[j]? = some k) {v : MatchEntry} (entry : entries[j]? = some v) :
    verdicts[k]? = some v := by
  have shown : (owed frames verdicts)[j]? = some (verdicts[k]?) := by simp [owed, frame]
  have held : ∃ more, owed frames verdicts = entries.map some ++ more := by
    cases tracks with
    | closed same all => exact ⟨[], by rw [all, List.append_nil]⟩
    | opened a same all flag => exact ⟨_, by rw [owed_start same, all]⟩
  obtain ⟨more, all⟩ := held
  have early : j < (entries.map some).length := by
    rw [List.length_map]
    exact (List.getElem?_eq_some_iff.mp entry).1
  rw [all, List.getElem?_append_left early, List.getElem?_map, entry] at shown
  simpa using shown.symm

/-- An accepted frame whose verdict came has its entry. -/
theorem Tracks.given (tracks : Tracks dropped entries frames verdicts) {j k : Nat}
    (frame : (accepted frames)[j]? = some k) (given : k < verdicts.length) : j < entries.length := by
  cases tracks with
  | closed same all =>
      have count : (accepted frames).length = entries.length := by simpa [owed] using congrArg List.length all
      have := (List.getElem?_eq_some_iff.mp frame).1
      omega
  | @opened before _ a same all flag =>
      have count : (accepted before).length = entries.length := by simpa [owed] using congrArg List.length all
      by_contra late
      rw [accepted_append, List.getElem?_append_right (by omega)] at frame
      have last := List.mem_of_getElem? frame
      split at last
      · simp only [List.mem_singleton] at last
        omega
      · simp at last

/-! ### The sofs in the receive buffer -/

def isSof (entry : BitVec 18) : Bool := entry.getLsbD 15 && entry.getLsbD 17 && entry.getLsbD 16

theorem high_bit (high : BitVec 2) (low : BitVec 16) (k : Nat) :
    BitVec.getLsbD (high ++ low : BitVec 18) (16 + k) = high.getLsbD k := by
  have bit := BitVec.getLsbD_append (x := high) (y := low) (i := 16 + k)
  rw [if_neg (by omega), Nat.add_sub_cancel_left] at bit
  exact bit

theorem pack_sofs (st : WriteState) (fab : InternalFabric) (addr : BitVec 2) :
    (RxBuffer.fPackRbufContents st fab addr).toList.countP isSof = fab.sof.toNat := by
  cases sof : fab.sof with
  | true =>
      cases eof : fab.eof <;> cases error : fab.error <;>
        simp [RxBuffer.fPackRbufContents, sof, eof, error] <;> decide
  | false =>
      have none : ∀ entry, RxBuffer.fPackRbufContents st fab addr = some entry → isSof entry = false := by
        intro entry packed
        simp only [RxBuffer.fPackRbufContents, sof, Bool.false_or] at packed
        split at packed
        · split at packed
          · cases packed
            cases fab.eof <;> cases fab.error <;> decide
          · split at packed
            · cases packed
              rw [isSof, high_bit _ _ 0, high_bit _ _ 1]
              split
              · simp
              · cases fab.bytesel <;> simp
            · cases packed
        · cases packed
      cases packed : RxBuffer.fPackRbufContents st fab addr with
      | none => rfl
      | some entry => simp [none entry packed]

/-- The sofs that have not reached the status insertion. -/
def inside (s : RxMatch) : Nat := s.buffer.srcFab.sof.toNat + s.buffer.fifo.countP isSof

variable {s : RxMatch} {o : Observer} {i : RxMatchIn}

theorem shown_sof (s : RxBuffer) : s.srcFab.sof = (s.qOutValid && isSof s.qOut) := by
  cases valid : s.qOutValid <;> simp [RxBuffer.srcFab, RxBuffer.fUnpackRbufContents, valid, isSof]

/-- The receive buffer keeps its sofs until it shows them. -/
theorem buffer_sofs (s : RxBuffer) (i : RxBufferIn) :
    (s.step i).srcFab.sof.toNat + (s.step i).fifo.countP isSof =
      s.fifo.countP isSof + (s.pEncodeFifoIn i).sof.toNat := by
  have packed : (s.qIn i).toList.countP isSof = (s.pEncodeFifoIn i).sof.toNat := pack_sofs _ _ _
  rw [shown_sof]
  simp only [RxBuffer.step, List.countP_append, packed]
  cases rd : s.qRd i with
  | false => simp
  | true =>
      cases fifo : s.fifo with
      | nil => simp [RxBuffer.qRd, fifo] at rd
      | cons entry rest =>
          cases first : isSof entry <;> simp [first]
          omega

/-- What the buffer takes in is what it accepts. -/
theorem encoded_sof (s : RxBuffer) (i : RxBufferIn) (start : i.snkFab.sof = true → s.state = .waitFrame) :
    (s.pEncodeFifoIn i).sof = s.accepts i := by
  cases sof : i.snkFab.sof with
  | false =>
      simp only [RxBuffer.pEncodeFifoIn, RxBuffer.accepts, sof]
      split <;> simp
  | true =>
      simp only [RxBuffer.pEncodeFifoIn, RxBuffer.accepts, sof, start sof]
      cases s.qDrop <;> cases i.dropReq <;> rfl

theorem dropped_step (s : RxBuffer) (i : RxBufferIn) (start : i.snkFab.sof = true → s.state = .waitFrame) :
    (s.step i).dropped = if i.snkFab.sof then !s.accepts i else s.dropped := by
  cases sof : i.snkFab.sof with
  | false => simp [RxBuffer.step, RxBuffer.pFifoWrite, sof]
  | true =>
      simp only [RxBuffer.step, RxBuffer.pFifoWrite, RxBuffer.accepts, sof, start sof]
      cases s.qDrop <;> cases i.dropReq <;> rfl

/-! ### The match buffer -/

/-- The entries taken, those in the match buffer and the one that waits to be written. -/
def stored (so : RxMatch × Observer) : List MatchEntry :=
  so.2.taken ++ so.1.mbuf.contents ++ if so.1.mbufWe then [so.2.latest] else []

theorem taken_step (s : RxMatch) (o : Observer) (i : RxMatchIn) (valid : s.mbuf.Valid gSize) :
    (s.observe o i).taken ++ (s.step i).mbuf.contents =
      o.taken ++ s.mbuf.contents ++ if s.mbufWe && (s.mbufRd i || !s.mbufFull) then [mbufD i] else [] := by
  have next : (s.step i).mbuf.contents = _ :=
    ShiftregFifo.contents_step gSize s.mbuf (mbufD i) s.mbufWe (s.mbufRd i) valid (by decide)
  rw [next]
  cases rd : s.mbufRd i with
  | false => simp [observe, rd, mbufFull]
  | true =>
      have live : s.mbuf.empty = false := by
        simp only [mbufRd, StatusInsert.mbufAck, statusIn, ShiftregFifo.qValidO] at rd
        cases empty : s.mbuf.empty
        · rfl
        · simp [empty] at rd
      simp [observe, rd, ShiftregFifo.contents_cons s.mbuf live]

/-- A verdict is added when its `done` pulse meets an accepted frame. -/
theorem stored_step (valid : s.mbuf.Valid gSize) (fits : Fits (s, o) i) :
    stored (watch (s, o) i) =
      stored (s, o) ++ if i.pfilterDone && !s.buffer.dropped then [mbufD i] else [] := by
  have hold := fits.hold
  have room (done : i.pfilterDone = true) := (fits.verdict done).2
  simp only at hold room
  rw [stored, stored, watch, taken_step s o i valid]
  cases store : i.pfilterDone && !s.buffer.dropped with
  | true =>
      simp only [Bool.and_eq_true, Bool.not_eq_true'] at store
      cases we : s.mbufWe with
      | false => simp [step, observe, store]
      | true =>
          have free := room store.1 we store.2
          simp [step, observe, store, free, hold we free]
  | false =>
      cases we : s.mbufWe with
      | false => simp [step, store, we]
      | true =>
          cases free : s.mbufRd i || !s.mbufFull with
          | true => simp [step, store, free, hold we free]
          | false => simp [step, observe, store, free, we]

/-! ### The status insertion -/

theorem status_wait (state : s.status.state = .waitMbuf) :
    (s.step i).status.state = .waitMbuf ↔ s.mbufRd i = false := by
  cases valid : s.mbuf.qValidO with
  | false => simp [step, StatusInsert.step, mbufRd, StatusInsert.mbufAck, statusIn, state, valid]
  | true =>
      simp [step, StatusInsert.step, mbufRd, StatusInsert.mbufAck, statusIn, state, valid]
      split <;> simp

theorem status_other (state : s.status.state ≠ .waitMbuf) :
    (s.step i).status.state = .waitMbuf ↔ s.status.state = .waitFrame ∧ s.buffer.srcFab.sof = true := by
  cases now : s.status.state with
  | waitMbuf => exact absurd now state
  | waitFrame => cases sof : s.buffer.srcFab.sof <;> simp [step, StatusInsert.step, statusIn, now, sof]
  | genStatus => cases dreq : i.srcDreq <;> simp [step, StatusInsert.step, statusIn, now, dreq]

/-- What holds after every cycle. -/
structure Inv (so : RxMatch × Observer) : Prop where
  valid : so.1.mbuf.Valid gSize
  tracks : Tracks so.1.buffer.dropped (stored so) so.2.frames so.2.verdicts
  sofs : so.2.shown + so.1.inside = (accepted so.2.frames).length
  waits : so.2.shown = so.2.taken.length + if so.1.status.state = .waitMbuf then 1 else 0
  silent : so.1.status.state ≠ .waitFrame → so.1.buffer.qOutValid = false
  masked : so.1.status.state = .waitMbuf → so.1.status.dreqMask = false

theorem inv_reset (fill : MatchEntry) : Inv (reset fill, {}) := by
  constructor
  · exact ShiftregFifo.reset_valid gSize (by decide) fill
  · exact .closed rfl rfl
  · rfl
  · rfl
  · simp [reset]
  · simp [reset]

theorem tracks_step (inv : Inv (s, o)) (fits : Fits (s, o) i) :
    Tracks (s.step i).buffer.dropped (stored (watch (s, o) i)) (s.observe o i).frames (s.observe o i).verdicts := by
  have start := fits.start
  have tracks := inv.tracks
  have dropped : (s.step i).buffer.dropped =
      if i.snkFab.sof then !s.buffer.accepts (s.bufferIn i) else s.buffer.dropped :=
    dropped_step s.buffer (s.bufferIn i) fun sof => (start sof).1
  rw [stored_step inv.valid fits, dropped]
  simp only at tracks start
  cases done : i.pfilterDone with
  | false =>
      cases sof : i.snkFab.sof with
      | false => simpa [observe, done, sof] using tracks
      | true =>
          have same : o.frames.length = o.verdicts.length := by simpa [done] using (start sof).2
          simp only [observe, done, sof]
          exact .opened _ same (by simpa using tracks.same same) rfl
  | true =>
      obtain ⟨same, all⟩ := tracks.verdict (mbufD i) (fits.verdict done).1
      have listed : (if (true && !s.buffer.dropped) = true then [mbufD i] else []) =
          if s.buffer.dropped then [] else [mbufD i] := by cases s.buffer.dropped <;> rfl
      rw [listed]
      cases sof : i.snkFab.sof with
      | false =>
          simp only [observe, done, sof]
          exact .closed same all
      | true =>
          simp only [observe, done, sof]
          exact .opened _ same all rfl

theorem sofs_step (inv : Inv (s, o)) (fits : Fits (s, o) i) :
    (s.observe o i).shown + (s.step i).inside = (accepted (s.observe o i).frames).length := by
  have start : (s.bufferIn i).snkFab.sof = true → s.buffer.state = .waitFrame := fun sof => (fits.start sof).1
  have before := inv.sofs
  have kept := buffer_sofs s.buffer (s.bufferIn i)
  have next : (s.step i).buffer = s.buffer.step (s.bufferIn i) := rfl
  rw [encoded_sof _ _ start] at kept
  simp only [inside, observe, next] at before ⊢
  cases sof : i.snkFab.sof with
  | false =>
      have none : s.buffer.accepts (s.bufferIn i) = false := by simp [RxBuffer.accepts, bufferIn, sof]
      rw [none] at kept
      simp only [Bool.toNat_false, Bool.false_eq_true, if_false] at kept ⊢
      omega
  | true =>
      rw [if_pos rfl, accepted_append]
      cases took : s.buffer.accepts (s.bufferIn i) <;> simp [took] at kept ⊢ <;> omega

/-- Sofs are shown in `WAIT_FRAME` alone. -/
theorem silent_sof (inv : Inv (s, o)) (sof : s.buffer.srcFab.sof = true) : s.status.state = .waitFrame := by
  by_contra other
  have silent := inv.silent other
  rw [shown_sof, silent] at sof
  simp at sof

theorem waits_step (inv : Inv (s, o)) : (s.observe o i).shown =
    (s.observe o i).taken.length + if (s.step i).status.state = .waitMbuf then 1 else 0 := by
  have before := inv.waits
  simp only [observe] at before ⊢
  by_cases state : s.status.state = .waitMbuf
  · have sof : s.buffer.srcFab.sof = false := by
      by_contra sof
      simp [silent_sof inv (by simpa using sof)] at state
    rw [if_pos state] at before
    simp only [status_wait state, sof]
    cases s.mbufRd i <;> simp <;> omega
  · have rd : s.mbufRd i = false := by simp [mbufRd, StatusInsert.mbufAck, state]
    rw [if_neg state] at before
    simp only [status_other state, rd]
    cases sof : s.buffer.srcFab.sof with
    | false => simp [before]
    | true => simp [silent_sof inv sof, before]

/-- Where the status insertion does not ask nothing is shown in the next cycle. -/
theorem not_shown (quiet : s.status.snkDreq (s.statusIn i) = false) : (s.step i).buffer.qOutValid = false := by
  simp [step, RxBuffer.step, RxBuffer.qRd, bufferIn, quiet]

theorem silent_step (inv : Inv (s, o)) (other : (s.step i).status.state ≠ .waitFrame) :
    (s.step i).buffer.qOutValid = false := by
  apply not_shown
  cases state : s.status.state with
  | waitFrame =>
      cases sof : s.buffer.srcFab.sof with
      | false => simp [step, StatusInsert.step, statusIn, state, sof] at other
      | true => simp [StatusInsert.snkDreq, statusIn, sof]
  | waitMbuf =>
      have masked : s.status.dreqMask = false := inv.masked state
      simp [StatusInsert.snkDreq, masked]
  | genStatus =>
      cases dreq : i.srcDreq with
      | false => simp [StatusInsert.snkDreq, statusIn, dreq]
      | true => simp [step, StatusInsert.step, statusIn, state, dreq] at other

theorem masked_step (inv : Inv (s, o)) (wait : (s.step i).status.state = .waitMbuf) :
    (s.step i).status.dreqMask = false := by
  cases state : s.status.state with
  | waitFrame =>
      cases sof : s.buffer.srcFab.sof <;> simp [step, StatusInsert.step, statusIn, state, sof] at wait ⊢
  | waitMbuf =>
      cases valid : s.mbuf.qValidO with
      | false => simpa [step, StatusInsert.step, statusIn, state, valid] using inv.masked state
      | true =>
          rw [status_wait state] at wait
          simp [mbufRd, StatusInsert.mbufAck, statusIn, valid, state] at wait
  | genStatus =>
      cases dreq : i.srcDreq <;> simp [step, StatusInsert.step, statusIn, state, dreq] at wait

theorem inv_step {so : RxMatch × Observer} (inv : Inv so) (fits : Fits so i) : Inv (watch so i) := by
  obtain ⟨s, o⟩ := so
  constructor
  · exact ShiftregFifo.step_valid _ _ _ _ _ inv.valid
  · exact tracks_step inv fits
  · exact sofs_step inv fits
  · exact waits_step inv
  · exact silent_step inv
  · exact masked_step inv

/-! ### Whole runs -/

/-- The sofs that left the buffer are those of the accepted frames, in their order; each of them but the
last has its entry, and the entry is the verdict of that frame. -/
structure Paired (so : RxMatch × Observer) : Prop where
  sofs : so.2.shown + so.1.inside = (accepted so.2.frames).length
  once : so.2.taken.length ≤ so.2.shown ∧ so.2.shown ≤ so.2.taken.length + 1
  own : ∀ (j k : Nat) (v : MatchEntry), (accepted so.2.frames)[j]? = some k → so.2.taken[j]? = some v →
    so.2.verdicts[k]? = some v

theorem Inv.paired {so : RxMatch × Observer} (inv : Inv so) : Paired so := by
  have waits := inv.waits
  constructor
  · exact inv.sofs
  · split at waits <;> omega
  · intro j k v frame entry
    apply inv.tracks.own frame
    rw [stored, List.append_assoc, List.getElem?_append_left (List.getElem?_eq_some_iff.mp entry).1]
    exact entry

/-- A frame waits for its entry, and its verdict is there. -/
def Waiting (so : RxMatch × Observer) : Prop :=
  so.2.taken.length < so.2.shown ∧
    ∃ k, (accepted so.2.frames)[so.2.taken.length]? = some k ∧ k < so.2.verdicts.length

theorem taken_length (s : RxMatch) (o : Observer) (i : RxMatchIn) :
    (s.observe o i).taken.length = o.taken.length + (s.mbufRd i).toNat := by
  cases rd : s.mbufRd i <;> simp [observe, rd]

/-- Two cycles bring the entry to the frame that waits for it. -/
theorem waiting_taken {so : RxMatch × Observer} (inv : Inv so) (waiting : Waiting so) (i j : RxMatchIn) :
    so.2.taken.length < (run watch so [i, j]).2.taken.length := by
  obtain ⟨s, o⟩ := so
  obtain ⟨behind, k, frame, given⟩ := waiting
  have waits := inv.waits
  have more := inv.tracks.given frame given
  have state : s.status.state = .waitMbuf := by
    by_contra other
    rw [if_neg other] at waits
    omega
  have first := taken_length s o i
  have second := taken_length (s.step i) (s.observe o i) j
  change o.taken.length < ((s.step i).observe (s.observe o i) j).taken.length
  cases rd : s.mbufRd i with
  | true =>
      rw [rd] at first
      simp only [Bool.toNat_true] at first
      omega
  | false =>
      -- the match buffer is empty, so the entry is about to be written
      have none : s.mbuf.qValidO = false := by simpa [mbufRd, StatusInsert.mbufAck, statusIn, state] using rd
      have empty : s.mbuf.contents = [] := by
        by_contra some
        simp [(ShiftregFifo.qValid_iff s.mbuf).mpr some] at none
      have we : s.mbufWe = true := by
        by_contra off
        simp [stored, empty, off] at more
      have zero : s.mbuf.pointer = 0 := inv.valid.empty_zero (by simpa [ShiftregFifo.qValidO] using none)
      have room : s.mbuf.pointerFull gSize = false := by simp [ShiftregFifo.pointerFull, zero, gSize]
      have written : (s.step i).mbuf.contents = [mbufD i] := by
        have next : (s.step i).mbuf.contents = _ :=
          ShiftregFifo.contents_step gSize s.mbuf (mbufD i) s.mbufWe (s.mbufRd i) inv.valid (by decide)
        simpa [rd, we, empty, room] using next
      have live : (s.step i).mbuf.qValidO = true := by
        rw [ShiftregFifo.qValid_iff, written]
        simp
      have stays : (s.step i).status.state = .waitMbuf := (status_wait state).mpr rd
      have later : (s.step i).mbufRd j = true := by
        simp [mbufRd, StatusInsert.mbufAck, statusIn, live, stays]
      rw [later] at second
      simp only [Bool.toNat_true] at second
      omega

/-- Over every run each entry taken is the verdict of the frame it is taken for, and a frame waits for its
entry only as long as its verdict has not come. -/
theorem verdicts_paired (fill : MatchEntry) (inputs : List RxMatchIn)
    (fits : Along watch Fits (reset fill, {}) inputs) :
    Paired (run watch (reset fill, {}) inputs) ∧
    (Waiting (run watch (reset fill, {}) inputs) → ∀ i j : RxMatchIn,
      (run watch (reset fill, {}) inputs).2.taken.length <
        (run watch (reset fill, {}) (inputs ++ [i, j])).2.taken.length) := by
  have inv : Inv (run watch (reset fill, {}) inputs) := by
    apply Along.invariant Inv _ (inv_reset fill) fits
    intro so i inv fits
    exact inv_step inv fits
  constructor
  · exact inv.paired
  · intro waiting i j
    rw [run_append]
    exact waiting_taken inv waiting i j

/-- A cycle of the fabric while the filter shows this class. -/
def cycle (fab : InternalFabric) (pclass : BitVec 8) : RxMatchIn := { snkFab := fab, pfilterPclass := pclass }

def verdict (pclass : BitVec 8) : RxMatchIn := { pfilterDone := true, pfilterPclass := pclass }

/-- A frame with its verdict inside, and the start of a second one. -/
def twoFrames : List RxMatchIn :=
  [cycle { sof := true } 0, verdict 1, cycle { eof := true } 1, cycle { sof := true } 1, cycle {} 1, cycle {} 1,
    verdict 2, cycle {} 2, cycle {} 2]

theorem verdicts_paired_two :
    (run watch (reset {}, {}) twoFrames).2.taken = [{ pfClass := 1 }, { pfClass := 2 }] ∧
    Paired (run watch (reset {}, {}) twoFrames) := by
  have fits : Along watch Fits (reset {}, {}) twoFrames := by decide
  exact ⟨by decide, (verdicts_paired {} twoFrames fits).1⟩

/-- The verdict of the first frame comes before its sof. -/
def earlyVerdict : List RxMatchIn :=
  [verdict 1, cycle { sof := true } 1, cycle { eof := true } 1, cycle { sof := true } 1, cycle {} 1, cycle {} 1,
    cycle {} 1]

/-- The buffer drops the first frame and the second one gets its verdict. -/
theorem verdict_shifted :
    accepted (run watch (reset {}, {}) earlyVerdict).2.frames = [1] ∧
    (run watch (reset {}, {}) earlyVerdict).2.verdicts = [{ pfClass := 1 }] ∧
    (run watch (reset {}, {}) earlyVerdict).2.taken = [{ pfClass := 1 }] ∧
    ¬Paired (run watch (reset {}, {}) earlyVerdict) := by
  refine ⟨by decide, by decide, by decide, ?_⟩
  intro paired
  have frame : (accepted (run watch (reset {}, {}) earlyVerdict).2.frames)[0]? = some 1 := by decide
  have entry : (run watch (reset {}, {}) earlyVerdict).2.taken[0]? = some { pfClass := 1 } := by decide
  have none : (run watch (reset {}, {}) earlyVerdict).2.verdicts[1]? = none := by decide
  have own := paired.own 0 1 _ frame entry
  rw [none] at own
  simp at own

end WrCores.Endpoint.RxMatch
