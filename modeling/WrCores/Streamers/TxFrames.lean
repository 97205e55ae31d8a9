import Mathlib.Tactic.IntervalCases
import WrCores.Streamers.Tx

/-!
The stream xtx_streamer hands to its fabric source, escape codes disabled. `Phase` says,
for each state of the FSM, how much of which frame has been handed over: `done` is the
stream so far with what the output registers show, `frames` the closed frames, `cur` the
words of the open frame that have left the buffer.
-/

namespace WrCores.Streamers

open Clocked

inductive Tx.Event where
  | sof
  | word (data : BitVec 16)
  | eof
  deriving DecidableEq, Repr

def TxOut.events (o : TxOut) : List Tx.Event :=
  (if o.sof then [Tx.Event.sof] else []) ++ ((if o.dvalid then [Tx.Event.word o.data] else []) ++
    (if o.eof then [Tx.Event.eof] else []))

namespace Tx

variable {k : Nat} (gen : TxGenerics) (cfg : TxStreamerCfg)

/-- The MAC words and the ethertype word, which a VLAN tag's replaces. -/
def header : List (BitVec 16) :=
  [macWord cfg.macTarget 0, macWord cfg.macTarget 1, macWord cfg.macTarget 2,
    macWord cfg.macLocal 0, macWord cfg.macLocal 1, macWord cfg.macLocal 2,
    if cfg.qtagEna then 0x8100#16 else cfg.ethertype]

/-- A data word as half-words from the least significant up. -/
def halves (e : TxEntry k) : List (BitVec 16) := List.ofFn e.data

/-- A frame that carries `words`, without its end. -/
def opened (words : List (TxEntry k)) : List Event :=
  .sof :: (header cfg ++ words.flatMap halves).map .word

def frameEvents (words : List (TxEntry k)) : List Event := opened cfg words ++ [.eof]

/-- Only the final word of a frame may be marked last. -/
def LastEnds (words : List (TxEntry k)) : Prop := ∀ e ∈ words.dropLast, e.last = false

inductive Phase : (done : List Event) → (frames : List (List (TxEntry k))) →
    (cur : List (TxEntry k)) → Tx k → Prop where
  | idle {frames s} : s.state = .idle → s.out.sof = false → s.out.dvalid = false →
      Phase (frames.flatMap (frameEvents cfg)) frames [] s
  | sof {frames s} : s.state = .sof → s.out.eof = false → s.out.dvalid = false →
      Phase (frames.flatMap (frameEvents cfg) ++ [.sof]) frames [] s
  | header {frames s} (n : Nat) : s.state = .ethHeader → s.out.sof = false → s.out.eof = false →
      s.count = BitVec.ofNat 15 n → s.serCount = 0#8 → n ≤ 6 →
      Phase (frames.flatMap (frameEvents cfg) ++ .sof :: ((header cfg).take n).map .word) frames [] s
  | payload {frames cur s} (j : Nat) : s.state = .payload → s.out.sof = false → s.out.eof = false →
      s.serCount.toNat = j → j < k → (j ≠ 0 → s.shown ≠ []) → (∀ e ∈ cur, e.last = false) →
      Phase (frames.flatMap (frameEvents cfg) ++ (opened cfg cur ++
        ((s.shown.take 1).flatMap halves |>.take j).map .word)) frames cur s
  | eof {frames cur s} : s.state = .eof → s.out.sof = false → s.out.eof = false → LastEnds cur →
      Phase (frames.flatMap (frameEvents cfg) ++ opened cfg cur) frames cur s

/-- What one edge does to the stream and to the words. -/
def Advances (done : List Event) (frames : List (List (TxEntry k))) (cur : List (TxEntry k))
    (s : Tx k) (i : TxIn k) : Prop :=
  ∃ frames' cur', Phase cfg (done ++ (s.step gen cfg i).out.events) frames' cur' (s.step gen cfg i) ∧
    (frames'.flatten ++ cur') ++ ((s.step gen cfg i).shown ++ (s.step gen cfg i).behind) =
      (frames.flatten ++ cur) ++ (s.shown ++ s.behind ++ written i) ∧
    ((∀ f ∈ frames, LastEnds f) → ∀ f ∈ frames', LastEnds f)

section Step

@[simp] theorem step_state (s : Tx k) (i : TxIn k) :
    (s.step gen cfg i).state = (s.fsmStep gen cfg i).state := rfl

@[simp] theorem step_out (s : Tx k) (i : TxIn k) :
    (s.step gen cfg i).out = (s.fsmStep gen cfg i).out := rfl

@[simp] theorem step_count (s : Tx k) (i : TxIn k) :
    (s.step gen cfg i).count = (s.fsmStep gen cfg i).count := rfl

@[simp] theorem step_serCount (s : Tx k) (i : TxIn k) :
    (s.step gen cfg i).serCount = (s.fsmStep gen cfg i).serCount := rfl

variable {frames : List (List (TxEntry k))} {cur : List (TxEntry k)} {s : Tx k} (i : TxIn k)

/-- Where no word is read, the buffer only grows. -/
theorem unread_words (unread : s.txFifoRd gen i.dreq = false) :
    (s.step gen cfg i).shown ++ (s.step gen cfg i).behind = s.shown ++ s.behind ++ written i := by
  simp [step, unread, List.append_assoc]

theorem unread_of_state (elsewhere : s.state ≠ .payload) : s.txFifoRd gen i.dreq = false := by
  simp [txFifoRd, elsewhere]

/-- An edge that reads no word and closes no frame. -/
theorem advances_unread {done : List Event} (unread : s.txFifoRd gen i.dreq = false)
    (phase : Phase cfg (done ++ (s.step gen cfg i).out.events) frames cur (s.step gen cfg i)) :
    Advances gen cfg done frames cur s i :=
  ⟨frames, cur, phase, by rw [unread_words gen cfg i unread], id⟩

theorem idle_advances (state : s.state = .idle) (sof : s.out.sof = false)
    (dvalid : s.out.dvalid = false) :
    Advances gen cfg (frames.flatMap (frameEvents cfg)) frames [] s i := by
  apply advances_unread gen cfg i (unread_of_state gen i (by simp [state]))
  cases start : s.fsmDreq gen i.dreq && (s.txFlushLatched || i.txFlushP1 || s.txThresholdHit i) with
  | false =>
      have same : (s.fsmStep gen cfg i).out = { s.out with eof := false } := by
        simp_all [fsmStep, idleStep, txThresholdHit]
      have quiet : (s.step gen cfg i).out.events = [] := by simp [same, TxOut.events, sof, dvalid]
      rw [quiet, List.append_nil]
      refine .idle ?_ (by simp [same, sof]) (by simp [same, dvalid])
      simp_all [fsmStep, idleStep, txThresholdHit]
  | true =>
      have opens : (s.fsmStep gen cfg i).out = { s.out with eof := false, sof := true } := by
        simp_all [fsmStep, idleStep, txThresholdHit]
      have first : (s.step gen cfg i).out.events = [.sof] := by simp [opens, TxOut.events, dvalid]
      rw [first]
      refine .sof ?_ (by simp [opens]) (by simp [opens, dvalid])
      simp_all [fsmStep, idleStep, txThresholdHit]

theorem sof_advances (state : s.state = .sof) (eof : s.out.eof = false)
    (dvalid : s.out.dvalid = false) :
    Advances gen cfg (frames.flatMap (frameEvents cfg) ++ [.sof]) frames [] s i := by
  apply advances_unread gen cfg i (unread_of_state gen i (by simp [state]))
  have quiet : (s.step gen cfg i).out.events = [] := by
    simp [fsmStep, state, sofStep, TxOut.events, eof, dvalid]
  rw [quiet, List.append_nil]
  refine .header 0 ?_ ?_ ?_ ?_ ?_ (by omega) <;> simp [fsmStep, state, sofStep, eof]

theorem header_word {n : Nat} (less : n < 7) : (header cfg)[n]? = some (headerData cfg n) := by
  interval_cases n <;> rfl

theorem header_advances (n : Nat) (state : s.state = .ethHeader) (sof : s.out.sof = false)
    (eof : s.out.eof = false) (count : s.count = BitVec.ofNat 15 n) (ser : s.serCount = 0#8)
    (early : n ≤ 6) (positive : 0 < k) :
    Advances gen cfg (frames.flatMap (frameEvents cfg) ++ .sof :: ((header cfg).take n).map .word)
      frames [] s i := by
  apply advances_unread gen cfg i (unread_of_state gen i (by simp [state]))
  have count_eq : (s.count.setWidth 8).toNat = n := by
    rw [count]
    simp only [BitVec.toNat_setWidth, BitVec.toNat_ofNat]
    omega
  cases dreq : s.fsmDreq gen i.dreq with
  | false =>
      have waits : (s.fsmStep gen cfg i).out = { s.out with dvalid := false } := by
        simp [fsmStep, state, ethHeaderStep, dreq]
      have quiet : (s.step gen cfg i).out.events = [] := by simp [waits, TxOut.events, sof, eof]
      rw [quiet, List.append_nil]
      refine .header n ?_ (by simp [waits, sof]) (by simp [waits, eof]) ?_ ?_ early <;>
        simp [fsmStep, state, ethHeaderStep, dreq, count, ser]
  | true =>
      have sends : (s.fsmStep gen cfg i).out =
          { s.out with data := headerData cfg n, dvalid := true } := by
        simp only [fsmStep, state, ethHeaderStep, dreq, if_true, count_eq]
        split_ifs <;> rfl
      have word : (s.step gen cfg i).out.events = [.word (headerData cfg n)] := by
        simp [sends, TxOut.events, sof, eof]
      have grown : ((header cfg).take n).map Event.word ++ [.word (headerData cfg n)] =
          ((header cfg).take (n + 1)).map Event.word := by
        rw [List.take_add_one, header_word cfg (by omega)]
        simp
      rw [word, List.append_assoc, List.cons_append, grown]
      by_cases more : n < 6
      · refine .header (n + 1) ?_ (by simp [sends, sof]) (by simp [sends, eof]) ?_ ?_ (by omega)
        · simp [fsmStep, state, ethHeaderStep, dreq, count_eq, more]
        · have counted : (s.fsmStep gen cfg i).count = s.count + 1#15 := by
            simp [fsmStep, state, ethHeaderStep, dreq, count_eq, more]
          rw [step_count, counted, count, BitVec.ofNat_add]
        · simp [fsmStep, state, ethHeaderStep, dreq, count_eq, more, ser]
      · obtain rfl : n = 6 := by omega
        have all : (header cfg).take (6 + 1) = header cfg := rfl
        have phase : Phase cfg (frames.flatMap (frameEvents cfg) ++ (opened cfg ([] : List (TxEntry k)) ++
            (((s.step gen cfg i).shown.take 1).flatMap halves |>.take 0).map .word)) frames []
            (s.step gen cfg i) := by
          refine .payload 0 ?_ (by simp [sends, sof]) (by simp [sends, eof]) ?_ positive
            (fun some => absurd rfl some) (by simp)
          · simp [fsmStep, state, ethHeaderStep, dreq, count_eq]
          · simp [fsmStep, state, ethHeaderStep, dreq, count_eq, ser]
        simpa [opened, all] using phase

/-- Words that become visible behind the head do not change it. -/
theorem head_grows {j : Nat} (front more : List (TxEntry k)) (some : j ≠ 0 → front ≠ []) :
    (((front ++ more).take 1).flatMap halves).take j = ((front.take 1).flatMap halves).take j := by
  cases front with
  | nil =>
      obtain rfl : j = 0 := by
        by_contra nonzero
        exact some nonzero rfl
      simp
  | cons e rest => simp

theorem halves_take (e : TxEntry k) (j : Nat) (below : j < k) :
    (halves e).take (j + 1) = (halves e).take j ++ [e.data ⟨j, below⟩] := by
  rw [List.take_add_one]
  simp [halves, below]

theorem payload_waits (j : Nat) (state : s.state = .payload) (sof : s.out.sof = false)
    (eof : s.out.eof = false) (ser : s.serCount.toNat = j) (below : j < k)
    (some : j ≠ 0 → s.shown ≠ []) (plain : ∀ e ∈ cur, e.last = false)
    (dreq : s.fsmDreq gen i.dreq = false) :
    Advances gen cfg (frames.flatMap (frameEvents cfg) ++ (opened cfg cur ++
      ((s.shown.take 1).flatMap halves |>.take j).map .word)) frames cur s i := by
  have unread : s.txFifoRd gen i.dreq = false := by simp [txFifoRd, dreq]
  apply advances_unread gen cfg i unread
  have waits : (s.fsmStep gen cfg i).out = { s.out with data := 0, dvalid := false } := by
    simp [fsmStep, state, payloadStep, dreq]
  have quiet : (s.step gen cfg i).out.events = [] := by simp [waits, TxOut.events, sof, eof]
  have shown_eq : (s.step gen cfg i).shown = s.shown ++ (s.behind ++ written i).take i.reveal := by
    simp [step, unread]
  rw [quiet, List.append_nil, ← head_grows s.shown ((s.behind ++ written i).take i.reveal) some,
    ← shown_eq]
  refine .payload j ?_ (by simp [waits, sof]) (by simp [waits, eof]) ?_ below ?_ plain
  · simp [fsmStep, state, payloadStep, dreq]
  · simp [fsmStep, state, payloadStep, dreq, ser]
  · intro nonzero
    rw [shown_eq]
    exact List.append_ne_nil_of_left_ne_nil (some nonzero) _

/-- The payload finds the buffer empty between two words. -/
theorem payload_ends (j : Nat) (state : s.state = .payload) (sof : s.out.sof = false)
    (eof : s.out.eof = false) (plain : ∀ e ∈ cur, e.last = false)
    (dreq : s.fsmDreq gen i.dreq = true) (none : s.shown = []) :
    Advances gen cfg (frames.flatMap (frameEvents cfg) ++ (opened cfg cur ++
      ((s.shown.take 1).flatMap halves |>.take j).map .word)) frames cur s i := by
  have unread : s.txFifoRd gen i.dreq = false := by simp [txFifoRd, txFifoEmpty, none]
  apply advances_unread gen cfg i unread
  have sent : (s.fsmStep gen cfg i).out.dvalid = false ∧ (s.fsmStep gen cfg i).out.sof = false ∧
      (s.fsmStep gen cfg i).out.eof = false := by
    simp [fsmStep, state, payloadStep, dreq, txFifoEmpty, none, sof, eof]
  have quiet : (s.step gen cfg i).out.events = [] := by simp [TxOut.events, sent]
  have phase : Phase cfg (frames.flatMap (frameEvents cfg) ++ opened cfg cur) frames cur
      (s.step gen cfg i) := by
    refine .eof ?_ (by simp [sent]) (by simp [sent]) fun e member => plain e (List.mem_of_mem_dropLast member)
    simp [fsmStep, state, payloadStep, dreq, txFifoEmpty, none]
  rw [quiet, List.append_nil]
  simpa [none] using phase

/-- The payload sends one lane of the word at the head of the buffer. -/
theorem payload_sends (j : Nat) (state : s.state = .payload) (sof : s.out.sof = false)
    (eof : s.out.eof = false) (ser : s.serCount.toNat = j) (below : j < k) (narrow : k ≤ 256)
    (plain : ∀ e ∈ cur, e.last = false) (dreq : s.fsmDreq gen i.dreq = true)
    (e : TxEntry k) (rest : List (TxEntry k)) (front : s.shown = e :: rest) :
    Advances gen cfg (frames.flatMap (frameEvents cfg) ++ (opened cfg cur ++
      ((s.shown.take 1).flatMap halves |>.take j).map .word)) frames cur s i := by
  have positive : 0 < k := by omega
  have sends : (s.fsmStep gen cfg i).out =
      { s.out with data := e.data ⟨j, below⟩, dvalid := true } := by
    simp [fsmStep, state, payloadStep, dreq, txFifoEmpty, txFifoLane, front, ser, below]
  have word : (s.step gen cfg i).out.events = [.word (e.data ⟨j, below⟩)] := by
    simp [sends, TxOut.events, sof, eof]
  have grown : opened cfg cur ++ ((s.shown.take 1).flatMap halves |>.take j).map .word ++
      [.word (e.data ⟨j, below⟩)] = opened cfg cur ++ ((halves e).take (j + 1)).map .word := by
    simp [front, halves_take e j below]
  by_cases full : j + 1 = k
  · have lane : s.lastLane = true := by simp [lastLane, ser, full]
    have reads : s.txFifoRd gen i.dreq = true := by
      simp [txFifoRd, state, lane, dreq, txFifoEmpty, front]
    have shown_eq : (s.step gen cfg i).shown = rest ++ (s.behind ++ written i).take i.reveal := by
      simp [step, reads, front]
    have behind_eq : (s.step gen cfg i).behind = (s.behind ++ written i).drop i.reveal := rfl
    have whole : opened cfg cur ++ ((halves e).take (j + 1)).map .word = opened cfg (cur ++ [e]) := by
      rw [List.take_of_length_le (by simp [halves]; omega)]
      simp [opened]
    refine ⟨frames, cur ++ [e], ?_, ?_, id⟩
    · rw [word, List.append_assoc, grown, whole]
      cases last : e.last with
      | true =>
          refine .eof ?_ (by simp [sends, sof]) (by simp [sends, eof]) ?_
          · simp [fsmStep, state, payloadStep, dreq, txFifoLast, front, last, lastLane, ser, full]
          · intro x member
            exact plain x (by simpa using member)
      | false =>
          have phase : Phase cfg (frames.flatMap (frameEvents cfg) ++ (opened cfg (cur ++ [e]) ++
              (((s.step gen cfg i).shown.take 1).flatMap halves |>.take 0).map .word)) frames
              (cur ++ [e]) (s.step gen cfg i) := by
            refine .payload 0 ?_ (by simp [sends, sof]) (by simp [sends, eof]) ?_ positive
              (fun some => absurd rfl some) ?_
            · simp [fsmStep, state, payloadStep, dreq, txFifoEmpty, txFifoLast, front, last]
            · simp [fsmStep, state, payloadStep, dreq, lastLane, ser, full]
            · intro x member
              rcases List.mem_append.1 member with old | new
              · exact plain x old
              · obtain rfl : x = e := by simpa using new
                exact last
          simpa using phase
    · rw [shown_eq, behind_eq, front]
      simp
  · have lane : s.lastLane = false := by simp [lastLane, ser, full]
    have unread : s.txFifoRd gen i.dreq = false := by simp [txFifoRd, lane]
    apply advances_unread gen cfg i unread
    have shown_eq : (s.step gen cfg i).shown = e :: (rest ++ (s.behind ++ written i).take i.reveal) := by
      simp [step, unread, front]
    have same : ((s.step gen cfg i).shown.take 1).flatMap halves = halves e := by simp [shown_eq]
    rw [word, List.append_assoc, grown, ← same]
    refine .payload (j + 1) ?_ (by simp [sends, sof]) (by simp [sends, eof]) ?_ (by omega)
      (fun _ => by simp [shown_eq]) plain
    · simp [fsmStep, state, payloadStep, dreq, txFifoEmpty, front, lastLane, ser, full]
    · have next : (s.fsmStep gen cfg i).serCount = s.serCount + 1#8 := by
        simp [fsmStep, state, payloadStep, dreq, lastLane, ser, full]
      rw [step_serCount, next, BitVec.toNat_add, ser]
      exact Nat.mod_eq_of_lt (by simp; omega)

theorem eof_advances (state : s.state = .eof) (sof : s.out.sof = false) (eof : s.out.eof = false)
    (ends : LastEnds cur) :
    Advances gen cfg (frames.flatMap (frameEvents cfg) ++ opened cfg cur) frames cur s i := by
  have unread := unread_of_state gen i (show s.state ≠ .payload by simp [state])
  cases dreq : s.fsmDreq gen i.dreq with
  | false =>
      apply advances_unread gen cfg i unread
      have waits : (s.fsmStep gen cfg i).out = { s.out with dvalid := false } := by
        simp [fsmStep, state, eofStep, dreq]
      have quiet : (s.step gen cfg i).out.events = [] := by simp [waits, TxOut.events, sof, eof]
      rw [quiet, List.append_nil]
      refine .eof ?_ (by simp [waits, sof]) (by simp [waits, eof]) ends
      simp [fsmStep, state, eofStep, dreq]
  | true =>
      have closes : (s.fsmStep gen cfg i).out = { s.out with dvalid := false, eof := true } := by
        simp [fsmStep, state, eofStep, dreq]
      have last : (s.step gen cfg i).out.events = [.eof] := by simp [closes, TxOut.events, sof]
      refine ⟨frames ++ [cur], [], ?_, ?_, ?_⟩
      · have whole : frames.flatMap (frameEvents cfg) ++ opened cfg cur ++ [.eof] =
            (frames ++ [cur]).flatMap (frameEvents cfg) := by simp [frameEvents]
        rw [last, whole]
        refine .idle ?_ (by simp [closes, sof]) (by simp [closes])
        simp [fsmStep, state, eofStep, dreq]
      · rw [unread_words gen cfg i unread]
        simp
      · intro good f member
        rcases List.mem_append.1 member with old | new
        · exact good f old
        · obtain rfl : f = cur := by simpa using new
          exact ends

theorem phase_step {done : List Event} (positive : 0 < k) (narrow : s.shown ≠ [] → k ≤ 256)
    (phase : Phase cfg done frames cur s) : Advances gen cfg done frames cur s i := by
  cases phase with
  | idle state sof dvalid => exact idle_advances gen cfg i state sof dvalid
  | sof state eof dvalid => exact sof_advances gen cfg i state eof dvalid
  | header n state sof eof count ser early =>
      exact header_advances gen cfg i n state sof eof count ser early positive
  | payload j state sof eof ser below some plain =>
      cases dreq : s.fsmDreq gen i.dreq with
      | false => exact payload_waits gen cfg i j state sof eof ser below some plain dreq
      | true =>
          cases front : s.shown with
          | nil =>
              rw [← front]
              exact payload_ends gen cfg i j state sof eof plain dreq front
          | cons e rest =>
              rw [← front]
              exact payload_sends gen cfg i j state sof eof ser below (narrow (by simp [front])) plain
                dreq e rest front
  | eof state sof eof ends => exact eof_advances gen cfg i state sof eof ends

end Step

/-- What the fabric source is handed in a cycle. -/
def handed (s : Tx k) (i : TxIn k) : List Event := (s.fabSrc gen i.dreq).events

def accepted (_ : Tx k) (i : TxIn k) : List (TxEntry k) := written i

/-- Nothing is in the buffer and nothing is written. -/
structure Unused (s : Tx k) (inputs : List (TxIn k)) : Prop where
  shown : s.shown = []
  behind : s.behind = []
  written : ∀ i ∈ inputs, written i = []

theorem Unused.step {s : Tx k} {i : TxIn k} {rest : List (TxIn k)} (unused : s.Unused (i :: rest)) :
    (s.step gen cfg i).Unused rest := by
  have nothing := unused.written i (by simp)
  refine ⟨?_, ?_, fun j member => unused.written j (by simp [member])⟩
  · simp [Tx.step, unused.shown, unused.behind, nothing]
  · simp [Tx.step, unused.behind, nothing]

/-- `ser_count` has eight bits: the words must be narrow, if there are any. -/
theorem run_phase (direct : gen.gEscapeCodeDisable = true) (positive : 0 < k)
    (s : Tx k) (inputs : List (TxIn k)) (narrow : k ≤ 256 ∨ s.Unused inputs)
    (before : List Event) (frames : List (List (TxEntry k)))
    (cur : List (TxEntry k)) (phase : Phase cfg (before ++ s.out.events) frames cur s)
    (good : ∀ f ∈ frames, LastEnds f) :
    ∃ frames' cur', Phase cfg (before ++ collect (step gen cfg) (handed gen) s inputs ++
        (run (step gen cfg) s inputs).out.events) frames' cur' (run (step gen cfg) s inputs) ∧
      (frames'.flatten ++ cur') ++ ((run (step gen cfg) s inputs).shown ++
          (run (step gen cfg) s inputs).behind) =
        (frames.flatten ++ cur) ++ (s.shown ++ s.behind) ++
          collect (step gen cfg) accepted s inputs ∧
      ∀ f ∈ frames', LastEnds f := by
  induction inputs generalizing s before frames cur with
  | nil => exact ⟨frames, cur, by simpa using phase, by simp, good⟩
  | cons i rest ih =>
      have fits : s.shown ≠ [] → k ≤ 256 := fun some =>
        narrow.resolve_right fun unused => some unused.shown
      obtain ⟨frames₁, cur₁, phase₁, words₁, good₁⟩ := phase_step gen cfg i positive fits phase
      obtain ⟨frames₂, cur₂, phase₂, words₂, good₂⟩ := ih (s.step gen cfg i)
        (narrow.imp_right (Unused.step gen cfg)) (before ++ s.out.events) frames₁ cur₁ phase₁
        (good₁ good)
      have here : handed gen s i = s.out.events := by simp [handed, fabSrc, direct]
      refine ⟨frames₂, cur₂, ?_, ?_, good₂⟩
      · simpa [here] using phase₂
      · rw [run_cons, words₂, words₁]
        simp [accepted]

/-- A phase as a list of whole frames and the beginning of one more. -/
theorem Phase.parts {done : List Event} {frames : List (List (TxEntry k))} {cur : List (TxEntry k)}
    {s : Tx k} (phase : Phase cfg done frames cur s) :
    ∃ started part, done = frames.flatMap (frameEvents cfg) ++ part ∧
      part <+: opened cfg (cur ++ started) ∧ started <+: s.shown ∧ LastEnds (cur ++ started) := by
  cases phase with
  | idle => exact ⟨[], [], by simp, by simp, by simp, by simp [LastEnds]⟩
  | sof => exact ⟨[], [.sof], rfl, by simp [opened], by simp, by simp [LastEnds]⟩
  | header n =>
      refine ⟨[], _, rfl, ?_, by simp, by simp [LastEnds]⟩
      simp only [opened, List.append_nil, List.flatMap_nil, List.cons_prefix_cons, true_and]
      exact (List.take_prefix n _).map _
  | payload j state sof eof ser below some plain =>
      refine ⟨s.shown.take 1, _, rfl, ?_, List.take_prefix 1 _, ?_⟩
      · have whole : opened cfg (cur ++ s.shown.take 1) =
            opened cfg cur ++ ((s.shown.take 1).flatMap halves).map .word := by simp [opened]
        rw [whole, List.prefix_append_right_inj]
        exact (List.take_prefix j _).map _
      · intro e member
        cases front : s.shown with
        | nil =>
            rw [front] at member
            exact plain e (List.mem_of_mem_dropLast (by simpa using member))
        | cons x rest =>
            rw [front] at member
            exact plain e (by simpa using member)
  | eof state sof eof ends => exact ⟨[], _, rfl, by simp, by simp, by simpa using ends⟩

/-- The stream of a run as whole frames and the beginning of one more. -/
theorem stream_parts (direct : gen.gEscapeCodeDisable = true) (positive : 0 < k)
    (inputs : List (TxIn k)) (narrow : k ≤ 256 ∨ (reset k).Unused inputs) :
    ∃ (frames : List (List (TxEntry k))) (current : List (TxEntry k)) (part : List Event),
      collect (step gen cfg) (handed gen) (reset k) inputs =
        frames.flatMap (frameEvents cfg) ++ part ∧
      part <+: opened cfg current ∧
      frames.flatten ++ current <+: collect (step gen cfg) accepted (reset k) inputs ∧
      ∀ f ∈ frames ++ [current], LastEnds f := by
  rcases List.eq_nil_or_concat inputs with rfl | ⟨front, i, rfl⟩
  · exact ⟨[], [], [], rfl, by simp, by simp, by simp [LastEnds]⟩
  · have start : Phase cfg ([] ++ (reset k).out.events) [] [] (reset k) :=
      @Phase.idle k cfg [] (reset k) rfl rfl rfl
    have narrow' : k ≤ 256 ∨ (reset k).Unused front :=
      narrow.imp_right fun unused => ⟨rfl, rfl, fun j member => unused.written j (by simp [member])⟩
    obtain ⟨frames, cur, phase, words, good⟩ := run_phase gen cfg direct positive (reset k)
      front narrow' [] [] [] start (by simp)
    obtain ⟨started, part, stream, opens, visible, ends⟩ := phase.parts
    refine ⟨frames, cur ++ started, part, ?_, opens, ?_, ?_⟩
    · have here : handed gen (run (step gen cfg) (reset k) front) i =
          (run (step gen cfg) (reset k) front).out.events := by simp [handed, fabSrc, direct]
      rw [List.concat_eq_append, collect_append, collect_cons, collect_nil, here, List.append_nil,
        ← stream, List.nil_append]
    · obtain ⟨hidden, shown_eq⟩ := visible
      have nothing : (reset k).shown ++ (reset k).behind = ([] : List (TxEntry k)) := rfl
      rw [nothing, ← shown_eq] at words
      simp only [List.flatten_nil, List.nil_append] at words
      rw [List.concat_eq_append, collect_append, ← words]
      simp
    · intro f member
      rcases List.mem_append.1 member with old | new
      · exact good f old
      · obtain rfl : f = cur ++ started := by simpa using new
        exact ends

/-- A cycle in which nothing is written, everything written is visible and the fabric asks. -/
def quietCycle (k : Nat) : TxIn k where
  txData := fun _ => 0
  txValid := false
  txLastP1 := false
  txFlushP1 := false
  txResetSeq := false
  dreq := true
  txFifoFull := false
  txAlmostEmpty := true
  reveal := 1
  crcValue := 0
  tagValid := false

def directGenerics : TxGenerics := ⟨256, 1024, true⟩

def tagged : TxStreamerCfg := { cTxStreamerCfgDefault with qtagEna := true }

/-- In the payload with a word to send and more than 256 lanes to send it in. -/
structure Wide (s : Tx k) : Prop where
  state : s.state = .payload
  sof : s.out.sof = false
  eof : s.out.eof = false
  dvalid : s.out.dvalid = true
  shown : s.shown ≠ []

/-- `ser_count` wraps before it reaches the last lane. -/
theorem Wide.step {s : Tx k} (wide : 256 < k) (stuck : s.Wide) :
    (s.step directGenerics cfg (quietCycle k)).Wide := by
  have lane : s.serCount.toNat + 1 ≠ k := by
    have : s.serCount.toNat < 256 := s.serCount.isLt
    omega
  obtain ⟨e, rest, front⟩ := List.exists_cons_of_ne_nil stuck.shown
  have unread : s.txFifoRd directGenerics true = false := by simp [txFifoRd, lastLane, lane]
  have asks : s.fsmDreq directGenerics true = true := rfl
  constructor
  · simp [fsmStep, stuck.state, payloadStep, quietCycle, asks, txFifoEmpty, front, lastLane, lane]
  · simp [fsmStep, stuck.state, payloadStep, quietCycle, asks, stuck.sof]
  · simp [fsmStep, stuck.state, payloadStep, quietCycle, asks, stuck.eof]
  · simp [fsmStep, stuck.state, payloadStep, quietCycle, asks, txFifoEmpty, front]
  · simp [Tx.step, quietCycle, unread, front]

end Tx

end WrCores.Streamers
