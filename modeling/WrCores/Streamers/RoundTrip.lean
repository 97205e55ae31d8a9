import WrCores.Streamers.LightFrames
import WrCores.Streamers.TxFrames

/-!
xtx_streamer into xrx_streamer_light, the pair xwr_streamers.vhd puts together. The
receiver sees each frame of the transmitter as a sof cycle, one cycle for each word and
at least one cycle without a word. It flags the end of a block in its state LAST, which it
enters from a cycle without a word that follows a cycle without one. It is never in the
payload then: the first such cycle has already sent it back to idle.
-/

namespace WrCores.Streamers

open Clocked

/-- The words of the frames a stream has closed; `words` are those of the open one. -/
def Tx.framesFrom (words : List (BitVec 16)) : List Tx.Event → List (List (BitVec 16))
  | [] => []
  | .sof :: rest => framesFrom [] rest
  | .word data :: rest => framesFrom (words ++ [data]) rest
  | .eof :: rest => words :: framesFrom [] rest

def Tx.framesOf (stream : List Tx.Event) : List (List (BitVec 16)) := framesFrom [] stream

/-- A block as the user writes it: its final word with `tx_last_p1_i`. -/
def Tx.marked {k : Nat} : List (Lanes k) → List (TxEntry k)
  | [] => []
  | [data] => [⟨true, data⟩]
  | data :: next :: rest => ⟨false, data⟩ :: marked (next :: rest)

theorem Tx.marked_last {k : Nat} (block : List (Lanes k)) (some : block ≠ []) :
    ∃ e ∈ marked block, e.last = true := by
  induction block with
  | nil => exact absurd rfl some
  | cons data rest ih =>
      cases rest with
      | nil => exact ⟨⟨true, data⟩, by simp [marked], rfl⟩
      | cons next rest =>
          obtain ⟨e, member, last⟩ := ih (by simp)
          exact ⟨e, by simp [marked, member], last⟩

namespace Tx

variable {k : Nat} (cfg : TxStreamerCfg)

theorem framesFrom_words (words data : List (BitVec 16)) (rest : List Event) :
    framesFrom words (data.map .word ++ rest) = framesFrom (words ++ data) rest := by
  induction data generalizing words with
  | nil => simp
  | cons d ds ih => simp [framesFrom, ih]

theorem framesFrom_open (words : List (BitVec 16)) (part : List Event) (open_ : .eof ∉ part) :
    framesFrom words part = [] := by
  induction part generalizing words with
  | nil => rfl
  | cons e rest ih =>
      have later : Event.eof ∉ rest := fun member => open_ (by simp [member])
      cases e with
      | sof => exact ih [] later
      | word data => exact ih _ later
      | eof => exact absurd (by simp) open_

theorem framesOf_frames (frames : List (List (TxEntry k))) (current : List (TxEntry k))
    (part : List Event) (opens : part <+: opened cfg current) :
    framesOf (frames.flatMap (frameEvents cfg) ++ part) =
      frames.map fun words => header cfg ++ words.flatMap halves := by
  have unclosed : Event.eof ∉ part := by
    intro member
    simpa [opened] using opens.subset member
  rw [framesOf]
  induction frames with
  | nil => exact framesFrom_open [] part unclosed
  | cons words rest ih =>
      have head : (words :: rest).flatMap (frameEvents cfg) ++ part =
          .sof :: ((header cfg ++ words.flatMap halves).map .word ++
            .eof :: (rest.flatMap (frameEvents cfg) ++ part)) := by
        simp [frameEvents, opened]
      rw [head, framesFrom, framesFrom_words, framesFrom, ih, List.nil_append, List.map_cons]

end Tx

namespace RxLight

variable {k w : Nat} (cfg : RxStreamerCfg)

def shown (s : RxLight k w) (_ : RxLightIn) : List (RxWord k) := s.buffer.dO.toList

/-- A frame without gaps between its words. -/
structure Frame.Steady (f : Frame) : Prop where
  sof : f.first.fab.sof = true
  clear : carries f.first = false
  body_sof : ∀ i ∈ f.body, i.fab.sof = false
  body_word : ∀ i ∈ f.body, carries i = true
  tail_sof : ∀ i ∈ f.tail, i.fab.sof = false
  tail_gap : ∀ i ∈ f.tail, carries i = false
  tail_some : f.tail ≠ []

/-! ### No word is marked last -/

structure Unmarked (s : RxLight k w) : Prop where
  state : s.fsm.state ≠ .last
  payload : s.fsm.state = .payload → s.fabDvalidD0 = true
  din : s.fsm.fifoLast = false
  mem : ∀ p, (s.buffer.mem p).last = false
  dO : ∀ word ∈ s.buffer.dO, word.last = false

theorem reset_unmarked : (reset k w).Unmarked := by
  constructor <;> simp [reset, Fsm.reset, DroppingBuffer.reset]

/-- The FSM enters its payload with a word, and leaves it with the first gap. -/
theorem fsm_unmarked (f : Fsm k) (i : Pipe) (state : f.state ≠ .last)
    (falls : f.state = .payload → i.dvalid = false → i.eof = true) (din : f.fifoLast = false) :
    (f.step cfg i).state ≠ .last ∧ ((f.step cfg i).state = .payload → i.dvalid = true) ∧
      (f.step cfg i).fifoLast = false := by
  cases here : f.state with
  | idle =>
      simp only [Fsm.step, here, Fsm.idleStep]
      split_ifs <;> simp
  | header =>
      simp only [Fsm.step, here, Fsm.headerStep, Fsm.headerWord]
      split_ifs <;> simp_all
  | payload =>
      have falls := falls here
      simp only [Fsm.step, here, Fsm.payloadStep, Fsm.pack]
      split_ifs <;> simp_all
  | last => exact absurd here state
  | eof => simp [Fsm.step, here, Fsm.eofStep, din]

theorem Unmarked.step {s : RxLight k w} (unmarked : s.Unmarked) (i : RxLightIn) :
    (s.step cfg i).Unmarked := by
  have falls : s.fsm.state = .payload → (s.fsmIn i.fab).dvalid = false →
      (s.fsmIn i.fab).eof = true := by
    intro inside low
    have before := unmarked.payload inside
    simp only [fsmIn] at low
    simp [fsmIn, low, before]
  obtain ⟨state, payload, din⟩ :=
    fsm_unmarked cfg s.fsm (s.fsmIn i.fab) unmarked.state falls unmarked.din
  refine ⟨state, payload, din, fun p => ?_, fun word member => ?_⟩
  · have kept := unmarked.mem p
    simp only [RxLight.step, DroppingBuffer.step]
    split_ifs
    · rw [Function.update_apply]
      split_ifs
      · exact unmarked.din
      · exact kept
    · exact kept
  · have read := unmarked.mem s.buffer.rdPtr
    simp only [RxLight.step, DroppingBuffer.step] at member
    split_ifs at member
    · obtain rfl : s.buffer.mem s.buffer.rdPtr = word := by simpa using member
      exact read
    · simp at member

theorem shown_unmarked (s : RxLight k w) (unmarked : s.Unmarked) (inputs : List RxLightIn) :
    ∀ word ∈ collect (RxLight.step cfg) shown s inputs, word.last = false := by
  induction inputs generalizing s with
  | nil => simp
  | cons i rest ih =>
      intro word member
      rcases List.mem_append.1 (by simpa using member) with here | later
      · exact unmarked.dO word (by simpa [shown] using here)
      · exact ih _ (unmarked.step cfg i) word later

/-! ### Frames without a payload -/

/-- Nothing in the buffer, nothing at its output. -/
structure Blank (b : DroppingBuffer (RxWord k) w) : Prop where
  boundary : b.boundary = b.rdPtr
  wrPtr : b.wrPtr = b.rdPtr
  dO : b.dO = none

theorem Blank.step {b : DroppingBuffer (RxWord k) w} (blank : Blank b)
    (i : DroppingBufferIn (RxWord k)) (silent : i.dValidI = false) : Blank (b.step i) := by
  have unread : b.reads i = false := by
    simp [DroppingBuffer.reads, DroppingBuffer.emptyComb, blank.boundary]
  constructor
  · simp [DroppingBuffer.step, unread, blank.boundary, blank.wrPtr]
  · simp [DroppingBuffer.step, unread, silent, blank.boundary, blank.wrPtr]
  · simp [DroppingBuffer.step, unread]

theorem unwritten_run (s : RxLight k w) (inputs : List RxLightIn) (blank : Blank s.buffer)
    (silent : collect (RxLight.step cfg) writes s inputs = []) :
    collect (RxLight.step cfg) shown s inputs = [] := by
  induction inputs generalizing s with
  | nil => rfl
  | cons i rest ih =>
      obtain ⟨here, later⟩ : writes s i = [] ∧
          collect (RxLight.step cfg) writes (s.step cfg i) rest = [] := by simpa using silent
      have low : s.fsm.fifoDvalid = false := by
        by_contra high
        simp [writes, high] at here
      rw [collect_cons, ih _ (blank.step (s.bufferIn i.rxDreq) low) later]
      simp [shown, blank.dO]

theorem header_frame_run (positive : 0 < k) (s : RxLight k w) (pack : Lanes k)
    (rests : FsmRests pack s.fsm) (f : Frame) (steady : f.Steady) (short : f.body.length = 7)
    (passes : cfg.Passes (frameWords f.body)) :
    (∃ pack', FsmRests pack' (run (RxLight.step cfg) s f.cycles).fsm) ∧
      collect (RxLight.step cfg) writes s f.cycles = [] := by
  obtain ⟨six, b, body_eq, count⟩ : ∃ six b, f.body = six ++ [b] ∧ six.length = 6 := by
    have some : f.body ≠ [] := by
      intro none
      simp [none] at short
    refine ⟨f.body.dropLast, f.body.getLast some, (List.dropLast_append_getLast some).symm, ?_⟩
    rw [List.length_dropLast, short]
  obtain ⟨g, rest, tail_eq⟩ := List.exists_cons_of_ne_nil steady.tail_some
  have words_eq : frameWords f.body = f.body.map (·.fab.data) := by
    rw [frameWords, List.filter_eq_self.2 steady.body_word]
  have taken : ∀ m, ∀ i ∈ six[m]?, cfg.refuses m i.fab.data = false := by
    intro m i here
    have less : m < 6 := by
      have := (List.getElem?_eq_some_iff.1 here).1
      omega
    refine passes m less i.fab.data ?_
    have there : f.body[m]? = some i := by rw [body_eq, List.getElem?_append_left (by omega), here]
    simp [words_eq, there]
  have header : HeaderAt s.fsm.packData 0 (s.step cfg f.first).fsm :=
    idle_sof cfg rests.state (i := s.fsmIn f.first.fab) steady.sof
  obtain ⟨sixth, silent⟩ := header_run cfg (s.step cfg f.first) six header
    (fun i member => steady.body_word i (by simp [body_eq, member])) (by omega) (by simpa using taken)
  rw [Nat.zero_add, count] at sixth
  generalize reached : run (RxLight.step cfg) (s.step cfg f.first) six = s₁ at sixth
  have valid : fabDvalid b.fab = true := steady.body_word b (by simp [body_eq])
  obtain ⟨opened, packed⟩ := sixth.open_payload cfg [] positive (i := s₁.fsmIn b.fab) valid
    (by simp [fsmIn, valid])
  have quiet : (s₁.step cfg b).fsm.fifoDvalid = false := by
    have none : ¬ Flushes k 0 := fun flushes => absurd flushes.2.1 (by omega)
    exact Bool.eq_false_iff.2 fun high => none (packed.dvalid.1 high)
  have low : fabDvalid g.fab = false := steady.tail_gap g (by simp [tail_eq])
  have closes : ((s₁.step cfg b).step cfg g).fsm = _ :=
    payload_close cfg opened (i := (s₁.step cfg b).fsmIn g.fab)
      (by simp [fsmIn, low, RxLight.step, valid])
  have idles : FsmRests (s₁.step cfg b).fsm.packData ((s₁.step cfg b).step cfg g).fsm := by
    rw [closes]
    exact ⟨rfl, quiet, rfl⟩
  obtain ⟨still, silent'⟩ := rests_run cfg _ rest idles fun i member =>
    steady.tail_sof i (by simp [tail_eq, member])
  have cycles_eq : f.cycles = f.first :: (six ++ b :: g :: rest) := by
    simp [Frame.cycles, body_eq, tail_eq]
  rw [cycles_eq, run_cons, run_append, collect_cons, collect_append, silent, reached]
  refine ⟨⟨_, still⟩, ?_⟩
  simp [silent', writes, rests.dvalid, sixth.dvalid, quiet]

theorem header_frames_run (positive : 0 < k) (s : RxLight k w) (pack : Lanes k)
    (rests : FsmRests pack s.fsm) (fs : List Frame) (steady : ∀ f ∈ fs, f.Steady)
    (short : ∀ f ∈ fs, f.body.length = 7) (passes : ∀ f ∈ fs, cfg.Passes (frameWords f.body)) :
    collect (RxLight.step cfg) writes s (fs.flatMap Frame.cycles) = [] := by
  induction fs generalizing s pack with
  | nil => rfl
  | cons f rest ih =>
      obtain ⟨⟨pack', rests'⟩, silent⟩ := header_frame_run cfg positive s pack rests f
        (steady f (by simp)) (short f (by simp)) (passes f (by simp))
      have later := ih _ pack' rests' (fun g member => steady g (by simp [member]))
        (fun g member => short g (by simp [member])) fun g member => passes g (by simp [member])
      rw [List.flatMap_cons, collect_append, silent, later, List.append_nil]

end RxLight

/-! ### The pair -/

section Pair

variable {k w : Nat} (gen : TxGenerics) (txCfg : TxStreamerCfg) (rxCfg : RxStreamerCfg)

/-- Without a word written, the transmitter's frames are bare headers. -/
theorem Tx.unused_frames (direct : gen.gEscapeCodeDisable = true) (positive : 0 < k)
    (txs : List (TxIn k))
    (none : collect (Tx.step gen txCfg) Tx.accepted (Tx.reset k) txs = []) :
    ∀ words ∈ Tx.framesOf (collect (Tx.step gen txCfg) (Tx.handed gen) (Tx.reset k) txs),
      words = Tx.header txCfg := by
  have unused : ∀ (s : Tx k) (inputs : List (TxIn k)),
      collect (Tx.step gen txCfg) Tx.accepted s inputs = [] → ∀ i ∈ inputs, Tx.written i = [] := by
    intro s inputs
    induction inputs generalizing s with
    | nil => simp
    | cons i rest ih =>
        intro silent
        obtain ⟨here, later⟩ : Tx.written i = [] ∧
            collect (Tx.step gen txCfg) Tx.accepted (s.step gen txCfg i) rest = [] := by
          simpa [Tx.accepted] using silent
        intro j member
        rcases List.mem_cons.1 member with rfl | member
        · exact here
        · exact ih _ later j member
  obtain ⟨frames, current, part, stream, opens, words, -⟩ := Tx.stream_parts gen txCfg direct positive
    txs (Or.inr ⟨rfl, rfl, unused _ txs none⟩)
  rw [none, List.prefix_nil, List.append_eq_nil_iff] at words
  rw [stream, Tx.framesOf_frames txCfg frames current part opens]
  intro frame member
  obtain ⟨entries, inside, rfl⟩ := List.mem_map.1 member
  have empty : entries = [] := List.flatten_eq_nil_iff.1 words.1 entries inside
  simp [empty]

/-- The receiver gives back the blocks as they were written only if there are none: it
never marks the last word of a block. -/
theorem round_trip_iff (direct : gen.gEscapeCodeDisable = true) (several : 2 ≤ k)
    (passes : rxCfg.Passes (Tx.header txCfg)) (blocks : List (List (Lanes k)))
    (some : ∀ block ∈ blocks, block ≠ []) (txs : List (TxIn k))
    (written : collect (Tx.step gen txCfg) Tx.accepted (Tx.reset k) txs = blocks.flatMap Tx.marked)
    (lead : List RxLightIn) (lead_sof : ∀ i ∈ lead, i.fab.sof = false)
    (fs : List RxLight.Frame) (steady : ∀ f ∈ fs, f.Steady)
    (passed : fs.map (fun f => RxLight.frameWords f.body) =
      Tx.framesOf (collect (Tx.step gen txCfg) (Tx.handed gen) (Tx.reset k) txs)) :
    (collect (RxLight.step rxCfg) RxLight.shown (RxLight.reset k w)
        (lead ++ fs.flatMap RxLight.Frame.cycles)).map (fun word => ⟨word.last, word.data⟩) =
      blocks.flatMap Tx.marked ↔ blocks = [] := by
  constructor
  · intro same
    by_contra nonempty
    obtain ⟨block, rest, rfl⟩ := List.exists_cons_of_ne_nil nonempty
    obtain ⟨e, member, last⟩ := Tx.marked_last block (some block (by simp))
    have reached : e ∈ (block :: rest).flatMap Tx.marked := by simp [member]
    rw [← same] at reached
    obtain ⟨word, shown, rfl⟩ := List.mem_map.1 reached
    have plain := RxLight.shown_unmarked rxCfg _ RxLight.reset_unmarked _ word shown
    simp [plain] at last
  · rintro rfl
    have bare := Tx.unused_frames gen txCfg direct (by omega) txs written
    have words : ∀ f ∈ fs, RxLight.frameWords f.body = Tx.header txCfg := by
      intro f member
      exact bare _ (passed ▸ List.mem_map_of_mem member)
    have short : ∀ f ∈ fs, f.body.length = 7 := by
      intro f member
      have all : f.body.filter RxLight.carries = f.body :=
        List.filter_eq_self.2 (steady f member).body_word
      have length := congrArg List.length (words f member)
      simpa [RxLight.frameWords, all, Tx.header] using length
    have start : RxLight.FsmRests (fun _ => 0) (RxLight.reset k w).fsm := ⟨rfl, rfl, rfl⟩
    obtain ⟨still, silent⟩ := RxLight.rests_run rxCfg (RxLight.reset k w) lead start lead_sof
    have silent' := RxLight.header_frames_run rxCfg (by omega) _ _ still fs steady short
      fun f member => words f member ▸ passes
    have unshown := RxLight.unwritten_run rxCfg (RxLight.reset k w)
      (lead ++ fs.flatMap RxLight.Frame.cycles) ⟨rfl, rfl, rfl⟩
      (by rw [collect_append, silent, silent', List.append_nil])
    simp [unshown]

end Pair

/-- A word of two lanes. -/
def pair (low high : BitVec 16) : Lanes 2 := fun lane => if lane = 0 then low else high

/-- A block of three words, and a request to send it. -/
def threeWords : List (TxIn 2) :=
  [{ Tx.quietCycle 2 with txData := pair 1 2, txValid := true },
    { Tx.quietCycle 2 with txData := pair 3 4, txValid := true },
    { Tx.quietCycle 2 with txData := pair 5 6, txValid := true, txLastP1 := true },
    { Tx.quietCycle 2 with txFlushP1 := true }] ++ List.replicate 18 (Tx.quietCycle 2)

/-- The receiver's side of it, read out all the time. -/
def threeWordsFrame : RxLight.Frame where
  first := ⟨{ RxLight.gapCycle.fab with sof := true }, true⟩
  body := [0x3c2c, 0x30a6, 0xa8b1, 0, 0, 0, 0xdbff, 1, 2, 3, 4, 5, 6].map fun data =>
    { RxLight.wordCycle data with rxDreq := true }
  tail := List.replicate 6 { RxLight.gapCycle with rxDreq := true }

theorem threeWordsFrame_steady : threeWordsFrame.Steady := by
  constructor <;> decide

/-- Of three words the receiver gives back two, and marks neither. -/
theorem last_word_lost :
    cRxStreamerCfgDefault.Passes (Tx.header cTxStreamerCfgDefault) ∧
    collect (Tx.step Tx.directGenerics cTxStreamerCfgDefault) Tx.accepted (Tx.reset 2) threeWords =
      Tx.marked [pair 1 2, pair 3 4, pair 5 6] ∧
    threeWordsFrame.Steady ∧
    [RxLight.frameWords threeWordsFrame.body] =
      Tx.framesOf (collect (Tx.step Tx.directGenerics cTxStreamerCfgDefault)
        (Tx.handed Tx.directGenerics) (Tx.reset 2) threeWords) ∧
    Along (RxLight.step cRxStreamerCfgDefault) (fun s _ => s.buffer.full = false)
      (RxLight.reset 2 4) threeWordsFrame.cycles ∧
    (collect (RxLight.step cRxStreamerCfgDefault) RxLight.shown (RxLight.reset 2 4)
        threeWordsFrame.cycles).map (fun word => (word.last, List.ofFn word.data)) =
      [(false, [1, 2]), (false, [3, 4])] :=
  ⟨by decide, by decide, threeWordsFrame_steady, by decide, by decide,
    by decide⟩

theorem round_trip_iff_three :
    (collect (RxLight.step cRxStreamerCfgDefault) RxLight.shown (RxLight.reset 2 4)
        ([] ++ [threeWordsFrame].flatMap RxLight.Frame.cycles)).map
          (fun word => ⟨word.last, word.data⟩) =
      [[pair 1 2, pair 3 4, pair 5 6]].flatMap Tx.marked ↔ [[pair 1 2, pair 3 4, pair 5 6]] = [] :=
  round_trip_iff Tx.directGenerics cTxStreamerCfgDefault cRxStreamerCfgDefault rfl (by decide)
    (by decide) [[pair 1 2, pair 3 4, pair 5 6]] (by simp) threeWords (by decide) []
    (by simp) [threeWordsFrame] (fun f member => List.mem_singleton.1 member ▸ threeWordsFrame_steady)
    (by decide)

end WrCores.Streamers
