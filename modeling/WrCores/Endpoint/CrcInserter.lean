import WrCores.Endpoint.CrcFrames
import WrCores.Endpoint.Injection

/-!
Frame after frame through ep_tx_crc_inserter.vhd. A book keeps for each frame its bytes and what
went out from its start to that of the next one. An end of a frame counts along with a valid word,
as the FIFO of the PCS takes it.
-/

namespace WrCores.Endpoint

open Clocked
open Fabric (cWrfData cWrfOob)

namespace TxCrcInserter

def snkDreq (s : TxCrcInserter) (i : TxCrcIn) : Bool := i.srcDreq && s.inPayload

/-- What goes out in a cycle. -/
def heard (s : TxCrcInserter) (i : TxCrcIn) : List FabEvent :=
  { s.srcFab i with eof := (s.srcFab i).eof && (s.srcFab i).dvalid }.txEvents

/-- A frame: its bytes, how it ended, what went out, and how many of the cycles since its end came
behind a request. -/
structure Frame where
  bytes : List (BitVec 8) := []
  closed : Bool := false
  failed : Bool := false
  heard : List FabEvent := []
  asks : Nat := 0
  deriving DecidableEq, Repr

structure Book where
  done : List Frame := []
  current : Option Frame := none
  /-- `src_dreq_i` and `snk_dreq_o` of the cycle before -/
  dreq : Bool := false
  asked : Bool := false
  deriving DecidableEq, Repr

def wordBytes (fab : InternalFabric) : List (BitVec 8) :=
  if fab.dvalid && fab.addr == cWrfData then
    fab.data.extractLsb' 8 8 :: if fab.bytesel then [] else [fab.data.extractLsb' 0 8]
  else []

def Frame.next (f : Frame) (dreq : Bool) (s : TxCrcInserter) (i : TxCrcIn) : Frame :=
  { bytes := f.bytes ++ if f.closed || f.failed then [] else wordBytes i.fab
    closed := f.closed || (!f.failed && !i.fab.error && closes i)
    failed := f.failed || i.fab.error
    heard := f.heard ++ s.heard i
    asks := f.asks + if f.closed && dreq then 1 else 0 }

def Book.next (b : Book) (s : TxCrcInserter) (i : TxCrcIn) : Book :=
  let kept := { b with dreq := i.srcDreq, asked := s.snkDreq i }
  if i.fab.sof then
    { kept with done := b.done ++ b.current.toList, current := some { heard := s.heard i } }
  else { kept with current := b.current.map (·.next b.dreq s i) }

def stepBook (sb : TxCrcInserter × Book) (i : TxCrcIn) : TxCrcInserter × Book :=
  (sb.1.step i, sb.2.next sb.1 i)

def Frame.Open (f : Frame) : Prop := f.closed = false ∧ f.failed = false

/-- The source sends a frame and obeys `snk_dreq_o`: its start, its words, of which only the last
one has `bytesel`, and its end or an error. Out-of-band words end it as well. -/
structure Legal (b : Book) (i : TxCrcIn) : Prop where
  rstN : i.rstN = true
  start : i.fab.sof = true → b.asked = true ∧ i.fab.dvalid = false ∧ i.fab.error = false ∧
    ∀ f ∈ b.current, ¬f.Open
  word : i.fab.dvalid = true → b.asked = true ∧ (i.fab.addr = cWrfOob ∨
    i.fab.addr = cWrfData ∧ ∃ f ∈ b.current, f.Open ∧ f.bytes.length % 2 = 0)
  bytesel : i.fab.bytesel = true → i.fab.dvalid = true ∧ i.fab.addr = cWrfData

/-- Where the inserter does its work. -/
structure Fits (s : TxCrcInserter) (b : Book) (i : TxCrcIn) : Prop where
  start : i.fab.sof = true → s.state = .idle
  oob : i.fab.dvalid = true → i.fab.addr = cWrfOob → s.inPayload = false
  error : i.fab.error = true → ∀ f ∈ b.current, f.closed = true → f.failed = false →
    s.inPayload = false ∧ FabEvent.eof ∉ s.heard i

def asEvent (w : BitVec 16 × Bool) : FabEvent := .word w.1 w.2

/-- Words with the end of their frame. -/
def ending (words : List (BitVec 16 × Bool)) : List FabEvent :=
  if words = [] then [] else words.map asEvent ++ [.eof]

def Frame.words (f : Frame) : List (BitVec 16 × Bool) := wordsOf (f.bytes ++ crcBytes (crcOf f.bytes))

/-- A good frame goes out with its check sequence, an errored one without its end. -/
def Frame.Appended (f : Frame) : Prop :=
  if f.failed then .error ∈ f.heard ∧ .eof ∉ f.heard
  else f.closed = true ∧ f.heard = .sof :: (f.words.map asEvent ++ [.eof])

theorem Frame.words_nonempty (f : Frame) : f.words ≠ [] := by
  intro empty
  have none := wordsOf_empty empty
  simp [crcBytes] at none

theorem evenPart_of_even {bytes : List (BitVec 8)} (even : bytes.length % 2 = 0) : evenPart bytes = bytes := by
  induction bytes using List.twoStepInduction with
  | nil => rfl
  | singleton x => simp at even
  | cons_cons x y rest ih _ => simp [evenPart, ih (by simp only [List.length_cons] at even; omega)]

/-! ### One cycle -/

/-- What the frame under way has left to go out. -/
structure Closing (s : TxCrcInserter) (f : Frame) : Prop where
  embeds : Embeds s
  words : f.heard ++ ending (toEmbed s) = .sof :: ending f.words
  short : (toEmbed s).length ≤ 3 - f.asks

structure Opened (s : TxCrcInserter) (f : Frame) (whole : List (BitVec 8)) (last : Option (BitVec 8)) : Prop where
  holds : Holds .waitCrc whole last s
  bytes : f.bytes = whole ++ last.toList
  even : whole.length % 2 = 0
  heard : f.heard = .sof :: (wordsOf whole).map asEvent
  asks : f.asks = 0

def Current (s : TxCrcInserter) (f : Frame) : Prop :=
  if f.failed then s.state = .idle ∧ f.Appended
  else if f.closed then Closing s f
  else ∃ whole last, Opened s f whole last

structure Inv (sb : TxCrcInserter × Book) : Prop where
  done : ∀ f ∈ sb.2.done, f.Appended
  free : sb.2.current = none → sb.1.state = .idle
  current : ∀ f ∈ sb.2.current, Current sb.1 f
  delayed : sb.1.inPayload = false → sb.1.srcDreqD0 = sb.2.dreq
  asked : sb.2.asked = true → sb.2.dreq = true

section Edge

variable {s : TxCrcInserter} {b : Book} {f : Frame} {i : TxCrcIn} {whole : List (BitVec 8)} {last : Option (BitVec 8)}

/-- In the payload the words pass, and the flags of the source. -/
theorem heard_payload (payload : s.inPayload = true) : s.heard i =
    (if i.fab.sof then [FabEvent.sof] else []) ++ (s.sent i).map asEvent ++
      (if i.fab.error then [FabEvent.error] else []) := by
  have cases : s.state = .idle ∨ s.state = .waitCrc := by simpa [inPayload] using payload
  rcases cases with state | state <;> cases valid : i.fab.dvalid <;> cases half : i.fab.bytesel <;>
    simp [heard, sent, srcFab, InternalFabric.txEvents, state, asEvent, valid, half]

/-- While the check sequence is embedded, the words of the source are ignored. -/
theorem embeds_ignores (embeds : s.inPayload = false) :
    s.step { i with fab := { i.fab with dvalid := false } } = s.step i ∧
      s.heard { i with fab := { i.fab with dvalid := false } } = s.heard i := by
  cases state : s.state with
  | idle => simp [inPayload, state] at embeds
  | waitCrc => simp [inPayload, state] at embeds
  | _ =>
      simp [step, fsmStep, fallen, crcGenReset, crcGenEnable, inPayload, heard, srcFab, crcValue, state]

/-- What is left goes out word by word, the end of the frame with the last. -/
theorem quiet_ending (quiet : Quiet i) (embeds : Embeds s) :
    ending (toEmbed s) = s.heard i ++ ending (toEmbed (s.step i)) := by
  have odd := embeds.third
  rw [quiet_step quiet embeds]
  cases state : s.state with
  | waitCrc => exact absurd state embeds.past
  | _ =>
      cases asked : s.srcDreqD0 <;> cases length : s.oddLength <;>
        simp_all [toEmbed, ending, asEvent, heard, InternalFabric.txEvents, srcFab, crcValue, fallen, crcGenReset,
          crcGenEnable, quiet.rstN, quiet.sof, quiet.error, quiet.dvalid]

theorem idle_toEmbed (state : s.state = .idle) : toEmbed s = [] := by simp [toEmbed, state]

theorem idle_payload (state : s.state = .idle) : s.inPayload = true := by simp [inPayload, state]

theorem wait_payload (state : s.state = .waitCrc) : s.inPayload = true := by simp [inPayload, state]

theorem step_dreq : (s.step i).srcDreqD0 = i.srcDreq := rfl

theorem error_step (error : i.fab.error = true) : (s.step i).state = .idle := by simp [step, fsmStep, error]

theorem idle_step (state : s.state = .idle) (sof : i.fab.sof = false) : (s.step i).state = .idle := by
  simp only [step, fsmStep, state, sof]
  split <;> rfl

theorem Legal.out_of_band (legal : Legal b i) (valid : i.fab.dvalid = true) (now : b.current = some f)
    (past : ¬f.Open) : i.fab.addr = cWrfOob := by
  rcases (legal.word valid).2 with oob | ⟨-, g, mem, isOpen, -⟩
  · exact oob
  · rw [now, Option.mem_some_iff] at mem
    exact absurd (mem ▸ isOpen) past

/-- No word passes behind a frame. -/
theorem idle_heard (legal : Legal b i) (fits : Fits s b i) (now : b.current = some f) (past : ¬f.Open)
    (state : s.state = .idle) (sof : i.fab.sof = false) : s.heard i = if i.fab.error then [.error] else [] := by
  have payload := idle_payload state
  have silent : i.fab.dvalid = false := by
    by_contra valid
    rw [Bool.not_eq_false] at valid
    exact absurd (fits.oob valid (legal.out_of_band valid now past)) (by simp [payload])
  simp [heard_payload payload, sof, sent, srcFab, state, silent]

theorem failed_step (legal : Legal b i) (fits : Fits s b i) (now : b.current = some f) (failed : f.failed = true)
    (sof : i.fab.sof = false) (held : Current s f) : Current (s.step i) (f.next b.dreq s i) := by
  rw [Current, if_pos failed] at held
  obtain ⟨state, shown⟩ := held
  have past : ¬f.Open := by simp [Frame.Open, failed]
  have more := idle_heard legal fits now past state sof
  have fails : (f.next b.dreq s i).failed = true := by simp [Frame.next, failed]
  rw [Frame.Appended, if_pos failed] at shown
  rw [Current, if_pos fails, Frame.Appended, if_pos fails]
  refine ⟨idle_step state sof, ?_⟩
  simp only [Frame.next, more, List.mem_append]
  refine ⟨.inl shown.1, ?_⟩
  cases error : i.fab.error <;> simp [shown.2]

/-- An error ends the frame: no end of it has gone out. -/
theorem error_kept (error : i.fab.error = true) (before : FabEvent.eof ∉ f.heard)
    (here : FabEvent.eof ∉ s.heard i) : Current (s.step i) (f.next b.dreq s i) := by
  have fails : (f.next b.dreq s i).failed = true := by simp [Frame.next, error]
  rw [Current, if_pos fails, Frame.Appended, if_pos fails]
  refine ⟨error_step error, ?_⟩
  simp only [Frame.next, List.mem_append]
  have passed : (s.srcFab i).error = true := by
    unfold srcFab
    split
    · exact error
    · split <;> exact error
    · exact error
    · exact error
  exact ⟨.inr (by simp [heard, InternalFabric.txEvents, passed]), by simp [before, here]⟩

theorem opened_error (opened : Opened s f whole last) (error : i.fab.error = true) :
    Current (s.step i) (f.next b.dreq s i) := by
  refine error_kept error ?_ ?_
  · rw [opened.heard]
    simp [asEvent]
  · rw [heard_payload (wait_payload opened.holds.state)]
    cases i.fab.sof <;> simp [error, asEvent]

/-- Until its last word is out, the end of a frame is not. -/
theorem closing_error (closing : Closing s f) (error : i.fab.error = true) (left : toEmbed s ≠ [])
    (here : FabEvent.eof ∉ s.heard i) : Current (s.step i) (f.next b.dreq s i) := by
  refine error_kept error ?_ here
  intro ended
  have words := closing.words
  rw [ending, if_neg left, ending, if_neg f.words_nonempty, ← List.append_assoc, ← List.cons_append] at words
  have same := List.append_inj_left' words rfl
  have inside : FabEvent.eof ∈ FabEvent.sof :: f.words.map asEvent := by
    rw [← same]
    exact List.mem_append_left _ ended
  simp [asEvent] at inside

theorem embeds_toEmbed (embeds : Embeds s) (past : s.inPayload = false) : toEmbed s ≠ [] := by
  have third := embeds.third
  cases state : s.state with
  | idle => simp [inPayload, state] at past
  | waitCrc => simp [inPayload, state] at past
  | _ => cases odd : s.oddLength <;> simp_all [toEmbed]

theorem toEmbed_short (s : TxCrcInserter) : (toEmbed s).length ≤ 3 := by
  cases state : s.state <;> cases odd : s.oddLength <;> simp [toEmbed, state, odd]

/-- A cycle of the wait. -/
theorem closing_step (closing : Closing s f) (closed : f.closed = true) (quiet : Quiet i)
    (dreq : s.inPayload = false → s.srcDreqD0 = b.dreq) : Closing (s.step i) (f.next b.dreq s i) where
  embeds := quiet_embeds quiet closing.embeds
  words := by
    have words := closing.words
    rw [quiet_ending quiet closing.embeds, ← List.append_assoc] at words
    simpa [Frame.next, Frame.words, closed] using words
  short := by
    have short := closing.short
    rw [quiet_length quiet closing.embeds]
    simp only [Frame.next, closed, Bool.true_and]
    by_cases done : toEmbed s = []
    · simp [done]
    · have embeds : s.inPayload = false := by
        by_contra payload
        have idle : s.state = .idle := by simpa [inPayload, closing.embeds.past] using payload
        exact done (idle_toEmbed idle)
      rw [dreq embeds]
      omega

/-- Within the frame its words pass, and half a word is held back. -/
theorem opened_body (opened : Opened s f whole last) (body : Body i) (isOpen : f.Open)
    (even : i.fab.dvalid = true → f.bytes.length % 2 = 0) : ∃ whole' last',
      (f.next b.dreq s i).bytes = whole' ++ last'.toList ∧ whole'.length % 2 = 0 ∧
      Holds (next i) whole' last' (s.step i) ∧
      (f.next b.dreq s i).heard = .sof :: (wordsOf whole').map asEvent := by
  obtain ⟨closed, failed⟩ := isOpen
  have payload := heard_payload (i := i) (wait_payload opened.holds.state)
  rw [body.sof, body.error] at payload
  cases valid : i.fab.dvalid with
  | false =>
      obtain ⟨holds, silent⟩ := body_quiet body opened.holds valid
      refine ⟨whole, last, ?_, opened.even, holds, ?_⟩
      · simp [Frame.next, wordBytes, valid, opened.bytes]
      · simp [Frame.next, payload, silent, opened.heard]
  | true =>
      -- behind half a word there is none
      have none : last = none := by
        have length := even valid
        rw [opened.bytes, List.length_append] at length
        have before := opened.even
        cases last with
        | none => rfl
        | some x =>
            simp at length
            omega
      subst none
      have bytes : f.bytes = whole := by simpa using opened.bytes
      have addr := body.addr valid
      have length : whole.length % 2 = 0 := opened.even
      have wordOf : wordsOf whole ++ wordsOf [i.fab.data.extractLsb' 8 8, i.fab.data.extractLsb' 0 8] =
          wordsOf (whole ++ [i.fab.data.extractLsb' 8 8, i.fab.data.extractLsb' 0 8]) := by
        rw [← evenPart_of_even length, wordsOf_append]
      cases half : i.fab.bytesel with
      | false =>
          obtain ⟨holds, out⟩ := body_word body opened.holds valid half _ _ (halves_append i.fab.data).symm
          refine ⟨_, none, ?_, ?_, holds, ?_⟩
          · simp [Frame.next, wordBytes, valid, addr, half, closed, failed, bytes]
          · simpa using length
          · rw [← wordOf]
            simp [Frame.next, payload, out, opened.heard, wordsOf, halves_append]
      | true =>
          obtain ⟨holds, silent⟩ := body_half body opened.holds half _ rfl
          refine ⟨whole, _, ?_, length, holds, ?_⟩
          · simp [Frame.next, wordBytes, valid, addr, half, closed, failed, bytes]
          · simp [Frame.next, payload, silent, opened.heard]

theorem opened_step (opened : Opened s f whole last) (body : Body i) (isOpen : f.Open)
    (even : i.fab.dvalid = true → f.bytes.length % 2 = 0) : Current (s.step i) (f.next b.dreq s i) := by
  obtain ⟨whole', last', bytes, even', holds, heard⟩ := opened_body (b := b) opened body isOpen even
  obtain ⟨closed, failed⟩ := isOpen
  have fine : (f.next b.dreq s i).failed = false := by simp [Frame.next, failed, body.error]
  have ends : (f.next b.dreq s i).closed = closes i := by simp [Frame.next, closed, failed, body.error]
  rw [Current, fine, ends, if_neg Bool.false_ne_true]
  cases closing : closes i with
  | false =>
      rw [if_neg Bool.false_ne_true]
      have waits : next i = .waitCrc := by simp [next, closing]
      exact ⟨whole', last', waits ▸ holds, bytes, even', heard, by simp [Frame.next, closed, opened.asks]⟩
  | true =>
      rw [if_pos rfl]
      have embeds : next i = .embed1 := by simp [next, closing]
      have held := toEmbed_held (embeds ▸ holds)
      rw [← bytes] at held
      have words : (f.next b.dreq s i).words = wordsOf whole' ++ toEmbed (s.step i) := by
        rw [held, Frame.words, bytes, List.append_assoc, ← evenPart_of_even even', wordsOf_append]
      have now : Embeds (s.step i) := ⟨by simp [holds.state, embeds], by simp [holds.state, embeds]⟩
      refine ⟨now, ?_, ?_⟩
      · have left : toEmbed (s.step i) ≠ [] := embeds_toEmbed now (by simp [inPayload, holds.state, embeds])
        rw [heard, words, ending, if_neg left, ending, if_neg (by simp [left])]
        simp
      · have none : (f.next b.dreq s i).asks = 0 := by simp [Frame.next, closed, opened.asks]
        rw [none]
        exact toEmbed_short _

theorem closing_wait (closing : Closing s f) (closed : f.closed = true) (failed : f.failed = false) (quiet : Quiet i)
    (dreq : s.inPayload = false → s.srcDreqD0 = b.dreq) : Current (s.step i) (f.next b.dreq s i) := by
  have fine : (f.next b.dreq s i).failed = false := by simp [Frame.next, failed, quiet.error]
  have ended : (f.next b.dreq s i).closed = true := by simp [Frame.next, closed]
  rw [Current, fine, ended, if_neg Bool.false_ne_true, if_pos rfl]
  exact closing_step closing closed quiet dreq

/-- A cycle that starts no frame. -/
theorem current_step (inv : Inv (s, b)) (legal : Legal b i) (fits : Fits s b i) (now : b.current = some f)
    (sof : i.fab.sof = false) : Current (s.step i) (f.next b.dreq s i) := by
  have held : Current s f := inv.current f now
  cases failed : f.failed with
  | true => exact failed_step legal fits now failed sof held
  | false =>
      rw [Current, failed, if_neg Bool.false_ne_true] at held
      cases closed : f.closed with
      | true =>
          rw [closed, if_pos rfl] at held
          have past : ¬f.Open := by simp [Frame.Open, closed]
          cases error : i.fab.error with
          | true =>
              obtain ⟨embeds, silent⟩ := fits.error error f now closed failed
              exact closing_error held error (embeds_toEmbed held.embeds embeds) silent
          | false =>
              have wait := closing_wait (i := { i with fab := { i.fab with dvalid := false } }) held closed failed
                ⟨legal.rstN, sof, error, rfl⟩ inv.delayed
              cases valid : i.fab.dvalid with
              | false => exact closing_wait held closed failed ⟨legal.rstN, sof, error, valid⟩ inv.delayed
              | true =>
                  -- a word that comes late is one of the out-of-band words
                  have oob := legal.out_of_band valid now past
                  obtain ⟨same, shown⟩ := embeds_ignores (i := i) (fits.oob valid oob)
                  have unread : f.next b.dreq s { i with fab := { i.fab with dvalid := false } } =
                      f.next b.dreq s i := by simp [Frame.next, closed, shown]
                  rw [same, unread] at wait
                  exact wait
      | false =>
          rw [closed, if_neg Bool.false_ne_true] at held
          obtain ⟨whole, last, opened⟩ := held
          cases error : i.fab.error with
          | true => exact opened_error opened error
          | false =>
              have payload := wait_payload opened.holds.state
              have addr : i.fab.dvalid = true → i.fab.addr = cWrfData := by
                intro valid
                rcases (legal.word valid).2 with oob | ⟨addr, -⟩
                · exact absurd (fits.oob valid oob) (by simp [payload])
                · exact addr
              refine opened_step opened ⟨legal.rstN, sof, error, addr, fun half => (legal.bytesel half).1⟩
                ⟨closed, failed⟩ ?_
              intro valid
              rcases (legal.word valid).2 with oob | ⟨-, g, mem, -, even⟩
              · exact absurd (fits.oob valid oob) (by simp [payload])
              · rw [now, Option.mem_some_iff] at mem
                exact mem ▸ even

theorem Closing.appended (closing : Closing s f) (closed : f.closed = true) (failed : f.failed = false)
    (left : toEmbed s = []) : f.Appended := by
  have words := closing.words
  rw [left, ending, if_pos rfl, List.append_nil, ending, if_neg f.words_nonempty] at words
  rw [Frame.Appended, failed, if_neg Bool.false_ne_true]
  exact ⟨closed, words⟩

theorem Current.appended (held : Current s f) (past : f.failed = true ∨ 3 ≤ f.asks) : f.Appended := by
  cases failed : f.failed with
  | true =>
      rw [Current, if_pos failed] at held
      exact held.2
  | false =>
      have asks : 3 ≤ f.asks := past.resolve_left (by simp [failed])
      rw [Current, failed, if_neg Bool.false_ne_true] at held
      cases closed : f.closed with
      | true =>
          rw [closed, if_pos rfl] at held
          have short := held.short
          exact held.appended closed failed (List.eq_nil_of_length_eq_zero (by omega))
      | false =>
          rw [closed, if_neg Bool.false_ne_true] at held
          obtain ⟨whole, last, opened⟩ := held
          have none := opened.asks
          omega

/-- The frame before is through when the next one starts. -/
theorem Inv.through (inv : Inv (s, b)) (now : b.current = some f) (past : ¬f.Open) (state : s.state = .idle) :
    f.Appended := by
  have held : Current s f := inv.current f now
  cases failed : f.failed with
  | true =>
      rw [Current, if_pos failed] at held
      exact held.2
  | false =>
      cases closed : f.closed with
      | false => exact absurd ⟨closed, failed⟩ past
      | true =>
          rw [Current, failed, closed, if_neg Bool.false_ne_true, if_pos rfl] at held
          exact held.appended closed failed (idle_toEmbed state)

theorem start_step (legal : Legal b i) (sof : i.fab.sof = true) (state : s.state = .idle) :
    Current (s.step i) { heard := s.heard i } := by
  obtain ⟨-, silent, fine, -⟩ := legal.start sof
  have starts : Expects .waitCrc [] none [] (s.step i) := start_expects state legal.rstN sof fine
  have shown : s.heard i = [.sof] := by
    simp [heard_payload (idle_payload state), sof, fine, sent, srcFab, state, silent]
  exact ⟨[], none, starts.1, rfl, rfl, by simp [shown, wordsOf], rfl⟩

theorem Inv.step (inv : Inv (s, b)) (legal : Legal b i) (fits : Fits s b i) : Inv (stepBook (s, b) i) := by
  have asked : s.snkDreq i = true → i.srcDreq = true := fun asks => (Bool.and_eq_true_iff.1 asks).1
  cases sof : i.fab.sof with
  | true =>
      have state := fits.start sof
      refine ⟨?_, by simp [stepBook, Book.next, sof], ?_,
        fun _ => by simpa [stepBook, Book.next, sof] using step_dreq,
        by simpa [stepBook, Book.next, sof] using asked⟩
      · intro f done
        simp only [stepBook, Book.next, sof, if_true, List.mem_append, Option.mem_toList] at done
        rcases done with done | now
        · exact inv.done f done
        · exact inv.through now ((legal.start sof).2.2.2 f now) state
      · intro f now
        simp only [stepBook, Book.next, sof, if_true, Option.mem_some_iff] at now
        exact now ▸ start_step legal sof state
  | false =>
      refine ⟨by simpa [stepBook, Book.next, sof] using inv.done, ?_, ?_,
        fun _ => by simpa [stepBook, Book.next, sof] using step_dreq, by simpa [stepBook, Book.next, sof] using asked⟩
      · intro absent
        have before : b.current = none := by simpa [stepBook, Book.next, sof] using absent
        exact idle_step (inv.free before) sof
      · intro f now
        simp only [stepBook, Book.next, sof, Bool.false_eq_true, if_false, Option.mem_def,
          Option.map_eq_some_iff] at now
        obtain ⟨g, now, rfl⟩ := now
        exact current_step inv legal fits now sof

/-- A word goes out behind a request only. -/
theorem Inv.requested (inv : Inv (s, b)) (legal : Legal b i) (valid : (s.srcFab i).dvalid = true) : b.dreq = true :=
    by
  cases payload : s.inPayload with
  | true =>
      have cases : s.state = .idle ∨ s.state = .waitCrc := by simpa [inPayload] using payload
      have word : i.fab.dvalid = true := by
        rcases cases with state | state <;> simp_all [srcFab]
      exact inv.asked (legal.word word).1
  | false =>
      rw [← inv.delayed payload]
      cases state : s.state with
      | idle => simp [inPayload, state] at payload
      | waitCrc => simp [inPayload, state] at payload
      | embed2 =>
          cases odd : s.oddLength <;> simpa [srcFab, state, odd] using valid
      | _ => simpa [srcFab, state] using valid

end Edge

/-- In a run from the idle inserter: every frame that is over when the next one starts, or that had three cycles
behind a request since its end, went out with its check sequence, or with an error and without its end. -/
theorem appends_transparently (cycles : List TxCrcIn) (s : TxCrcInserter) (idle : s.state = .idle)
    (legal : Along stepBook (fun sb i => Legal sb.2 i) (s, {}) cycles)
    (fits : Along stepBook (fun sb i => Fits sb.1 sb.2 i) (s, {}) cycles) :
    (∀ f ∈ (run stepBook (s, {}) cycles).2.done, f.Appended) ∧
      (∀ f ∈ (run stepBook (s, {}) cycles).2.current, f.failed = true ∨ 3 ≤ f.asks → f.Appended) ∧
      Along stepBook (fun sb i => (sb.1.srcFab i).dvalid = true → sb.2.dreq = true) (s, {}) cycles := by
  have start : Inv (s, {}) := ⟨by simp, fun _ => idle, by simp, by simp [inPayload, idle], by simp⟩
  have runs := legal.and fits
  have kept := runs.invariant Inv (fun _ _ inv both => inv.step both.1 both.2) start
  refine ⟨kept.done, ?_, ?_⟩
  · intro f now past
    exact (kept.current f now).appended past
  · exact runs.yields Inv (fun _ _ inv both => inv.step both.1 both.2)
      (fun sb i inv (both : Legal sb.2 i ∧ Fits sb.1 sb.2 i) valid => inv.requested both.1 valid) start

/-! ### Frames that follow each other -/

instance (b : Book) (i : TxCrcIn) : Decidable (Legal b i) :=
  decidable_of_iff
    (i.rstN = true ∧
      (i.fab.sof = true → b.asked = true ∧ i.fab.dvalid = false ∧ i.fab.error = false ∧
        ∀ f ∈ b.current, ¬(f.closed = false ∧ f.failed = false)) ∧
      (i.fab.dvalid = true → b.asked = true ∧ (i.fab.addr = cWrfOob ∨ i.fab.addr = cWrfData ∧
        ∃ f ∈ b.current, (f.closed = false ∧ f.failed = false) ∧ f.bytes.length % 2 = 0)) ∧
      (i.fab.bytesel = true → i.fab.dvalid = true ∧ i.fab.addr = cWrfData))
    ⟨fun ⟨rstN, start, word, bytesel⟩ => ⟨rstN, start, word, bytesel⟩,
      fun ⟨rstN, start, word, bytesel⟩ => ⟨rstN, start, word, bytesel⟩⟩

instance (s : TxCrcInserter) (b : Book) (i : TxCrcIn) : Decidable (Fits s b i) :=
  decidable_of_iff
    ((i.fab.sof = true → s.state = .idle) ∧
      (i.fab.dvalid = true → i.fab.addr = cWrfOob → s.inPayload = false) ∧
      (i.fab.error = true → ∀ f ∈ b.current, f.closed = true → f.failed = false →
        s.inPayload = false ∧ FabEvent.eof ∉ s.heard i))
    ⟨fun ⟨start, oob, error⟩ => ⟨start, oob, error⟩, fun ⟨start, oob, error⟩ => ⟨start, oob, error⟩⟩

instance (f : Frame) : Decidable f.Appended :=
  inferInstanceAs (Decidable (if f.failed = true then FabEvent.error ∈ f.heard ∧ FabEvent.eof ∉ f.heard
    else f.closed = true ∧ f.heard = .sof :: (f.words.map asEvent ++ [.eof])))

def quietIn (dreq : Bool) : TxCrcIn := { fab := {}, srcDreq := dreq }

/-- Three bytes, a frame that is aborted, and one that ends with an out-of-band cycle. -/
def mixed : List TxCrcIn :=
  [quietIn true, oddStart, oddWord, { oddFinal with srcDreq := false }] ++
    [false, true, false, true, true, true, true].map quietIn ++
  [oddStart, oddWord, { fab := { error := true }, srcDreq := true }, quietIn true, oddStart, oddWord,
    { fab := { addr := cWrfOob }, srcDreq := true }, quietIn true, quietIn true, quietIn true]

theorem appends_transparently_mixed : (run stepBook (idleInserter, {}) mixed).2.done.length = 2 ∧
    ∀ f ∈ (run stepBook (idleInserter, {}) mixed).2.done, f.Appended :=
  ⟨by decide +kernel, (appends_transparently mixed idleInserter rfl (by decide +kernel) (by decide +kernel)).1⟩

/-- A frame that starts in the cycle behind the end of another one. -/
def together : List TxCrcIn :=
  [quietIn true, oddStart, { oddWord with fab := { oddWord.fab with eof := true } }, oddStart]

/-- The source obeys `snk_dreq_o`, but the first frame has no check sequence. -/
theorem appends_torn : Along stepBook (fun sb i => Legal sb.2 i) (idleInserter, {}) together ∧
    ¬∀ f ∈ (run stepBook (idleInserter, {}) together).2.done, f.Appended := by
  decide +kernel

end TxCrcInserter

end WrCores.Endpoint
