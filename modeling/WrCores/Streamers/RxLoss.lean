import Mathlib.Tactic
import WrCores.Streamers.Rx

/-!
The loss counters of xrx_streamer over whole runs: the frame numbers against `seq_no` and the block numbers
against `count`. A frame has arrived when its sequence number is taken in FRAME_SEQ_ID.
-/

namespace WrCores.Streamers.Rx.Fsm

open Clocked

variable {k : Nat} (gen : Generics) (cfg : RxStreamerCfg)

/-- The sequence number of a frame is taken. -/
def takesSeq (s : Fsm k) (i : FsmIn) : Bool := s.state == .frameSeqId && !i.pipe.eof && i.pipe.dvalid

def number (i : FsmIn) : BitVec 15 := i.pipe.data.extractLsb' 0 15

/-- What the loss ports show: a frame, and the pulse of `rx_lost_frames_p1_o` with its count. -/
inductive Report where
  | frame (number : BitVec 15)
  | lost (count : Nat)
  deriving DecidableEq, Repr

def pulse (s : Fsm k) : List Report := if s.framesLost then [.lost s.rxLostFramesCnt.toNat] else []

def reports (s : Fsm k) (i : FsmIn) : List Report :=
  s.pulse ++ if s.takesSeq i then [.frame (number i)] else []

/-- All reports of a run, the pulse of the last frame included. -/
def allReports (inputs : List FsmIn) : List Report :=
  collect (step gen cfg) reports (reset k) inputs ++ (run (step gen cfg) (reset k) inputs).pulse

/-- The frames of a run. -/
def frames (inputs : List FsmIn) : List (BitVec 15) :=
  collect (step gen cfg) (fun (s : Fsm k) i => if s.takesSeq i then [number i] else []) (reset k) inputs

/-- What the ports should show for the frame `sent` when `last` was the one before. -/
def dueAfter : Nat → List Nat → List Report
  | _, [] => []
  | last, sent :: rest =>
      .frame (BitVec.ofNat 15 sent) :: (if last + 1 < sent then [.lost (sent - last - 1)] else []) ++
        dueAfter sent rest

/-- The transmitter's numbers of the received frames, counted without end: the first is not missed. -/
def due : List Nat → List Report
  | [] => []
  | first :: rest => .frame (BitVec.ofNat 15 first) :: dueAfter first rest

/-- The frames arrive in order and fewer than 2^15 are missing between two of them. -/
def Sent : List Nat → Prop
  | [] => True
  | [_] => True
  | a :: b :: rest => (a < b ∧ b - a - 1 < 2 ^ 15) ∧ Sent (b :: rest)

/-- No frame is missing. -/
def Whole : List Nat → Prop
  | [] => True
  | [_] => True
  | a :: b :: rest => b = a + 1 ∧ Whole (b :: rest)

def missing : List Nat → Nat
  | [] => 0
  | [_] => 0
  | a :: b :: rest => (b - a - 1) + missing (b :: rest)

def counted (l : List Report) : Nat :=
  (l.map fun | .lost n => n | .frame _ => 0).sum

/-- The registers of the frame loss: only a sequence number changes them, and its pulse is over after a cycle. -/
structure Watched (s : Fsm k) : Prop where
  pulse : s.framesLost = true → s.state = .payload
  unused : s.state ≠ .subframeHeader

variable {gen cfg}

theorem latency_seq (s : Fsm k) (tag : BitVec 28) :
    (s.latency tag).seqNo = s.seqNo ∧ (s.latency tag).syncSeqNo = s.syncSeqNo := by
  simp only [latency]
  split <;> exact ⟨rfl, rfl⟩

theorem headerWord_loss (cfg : RxStreamerCfg) (s : Fsm k) (data : BitVec 16) :
    (s.headerWord cfg data).framesLost = s.framesLost ∧ (s.headerWord cfg data).seqNo = s.seqNo ∧
      (s.headerWord cfg data).syncSeqNo = s.syncSeqNo ∧
      ((s.headerWord cfg data).state = s.state ∨ (s.headerWord cfg data).state = .idle ∨
        (s.headerWord cfg data).state = .frameSeqId) := by
  simp only [headerWord, tagHigh, tagLow]
  split
  · refine ⟨rfl, rfl, rfl, ?_⟩
    simp only
    split
    · exact .inr (.inl rfl)
    · exact .inl rfl
  · split <;> (try split) <;> (try split) <;> simp

/-- What one edge does to the registers of the frame loss. -/
structure Counted (s s' : Fsm k) (takes : Bool) (n : BitVec 15) : Prop where
  seqNo : s'.seqNo = if takes then n + 1#15 else s.seqNo
  syncSeqNo : s'.syncSeqNo = if takes && decide (s.seqNo ≠ n) then false else s.syncSeqNo
  framesLost : s'.framesLost = (takes && decide (s.seqNo ≠ n) && !s.syncSeqNo)
  count : s'.framesLost = true → s'.rxLostFramesCnt = n - s.seqNo

theorem seqWord_counted (s t : Fsm k) (data : BitVec 16) (same : t.seqNo = s.seqNo ∧ t.syncSeqNo = s.syncSeqNo) :
    Counted s (t.seqWord data) true (data.extractLsb' 0 15) := by
  obtain ⟨seq, sync⟩ := same
  simp only [seqWord, seq, sync]
  by_cases differ : s.seqNo ≠ data.extractLsb' 0 15
  · cases first : s.syncSeqNo with
    | true => constructor <;> simp [differ, first]
    | false => constructor <;> simp [differ, first]
  · have equal : s.seqNo = data.extractLsb' 0 15 := not_not.mp differ
    constructor <;> simp [equal]

/-- A step that takes no sequence number leaves the registers alone. -/
theorem counted_still {s s' : Fsm k} {n : BitVec 15} (seqNo : s'.seqNo = s.seqNo)
    (syncSeqNo : s'.syncSeqNo = s.syncSeqNo) (quiet : s'.framesLost = false) : Counted s s' false n :=
  ⟨seqNo, syncSeqNo, quiet, fun lost => absurd (quiet.symm.trans lost) Bool.false_ne_true⟩

/-- The registers that the payload leaves alone, and the states it may lead to. -/
structure Inside (s s' : Fsm k) : Prop where
  seqNo : s'.seqNo = s.seqNo
  syncSeqNo : s'.syncSeqNo = s.syncSeqNo
  framesLost : s'.framesLost = s.framesLost
  state : s'.state ≠ .subframeHeader

theorem escape_inside (s : Fsm k) (data : BitVec 16) (crcMatch : Bool) : Inside s (s.escape data crcMatch) := by
  simp only [escape]
  split
  · exact ⟨rfl, rfl, rfl, by simp⟩
  · split <;> exact ⟨rfl, rfl, rfl, by simp⟩

theorem pack_inside (gen : Generics) (s : Fsm k) (data : BitVec 16) (here : s.state = .payload) :
    Inside s (s.pack gen data) ∧ (s.pack gen data).count = s.count := by
  simp only [pack]
  split
  · split <;> split <;> exact ⟨⟨rfl, rfl, rfl, by simp [here]⟩, rfl⟩
  · split <;> exact ⟨⟨rfl, rfl, rfl, by simp [here]⟩, rfl⟩

/-- The header of a block is taken. -/
def takesBlock (s : Fsm k) (i : FsmIn) : Bool :=
  s.state == .payload && !i.pipe.eof && i.pipe.dvalid && i.isEscape && i.pipe.data.getLsbD 15

/-- What the payload does to the registers of both losses. -/
structure Paid (s s' : Fsm k) (i : FsmIn) : Prop where
  seqNo : s'.seqNo = s.seqNo
  syncSeqNo : s'.syncSeqNo = s.syncSeqNo
  framesLost : s'.framesLost = false
  state : s'.state ≠ .subframeHeader
  count : s'.state = .payload →
    s'.count = if s.takesBlock i then (if s.count ≠ number i then number i else s.count + 1#15) else s.count
  blocksLost : s.takesBlock i = true → s'.blocksLost = decide (s.count ≠ number i)

/-- The assignments in front of the cases of PAYLOAD. -/
def entered (s : Fsm k) : Fsm k :=
  { s with framesLost := false, rxLostFramesCnt := 0, rxLatencyValid := false, fifoSync := s.gotNextSubframe }

theorem escape_paid {s : Fsm k} {i : FsmIn} (here : s.state = .payload) (eof : i.pipe.eof = false)
    (valid : i.pipe.dvalid = true) (escaped : i.isEscape = true) :
    Paid s (s.entered.escape i.pipe.data i.crcMatch) i := by
  have inside := escape_inside s.entered i.pipe.data i.crcMatch
  have header : s.takesBlock i = i.pipe.data.getLsbD 15 := by
    simp [takesBlock, here, eof, valid, escaped]
  refine ⟨inside.seqNo, inside.syncSeqNo, inside.framesLost, inside.state, ?_, ?_⟩
  · rw [header, escape]
    cases i.pipe.data.getLsbD 15 with
    | true => exact fun _ => rfl
    | false =>
        simp only [Bool.false_eq_true, if_false]
        split <;> simp
  · rw [header, escape]
    intro set
    rw [if_pos set]
    rfl

theorem payload_loss (gen : Generics) (s : Fsm k) (i : FsmIn) (here : s.state = .payload) : Paid s
    (s.payloadStep gen i) i := by
  have sync : ∀ s' : Fsm k, Paid s s' i → Paid s (if s.fifoDvalid then { s' with fifoSync := false } else s') i := by
    intro s' paid
    split
    · exact ⟨paid.seqNo, paid.syncSeqNo, paid.framesLost, paid.state, paid.count, paid.blocksLost⟩
    · exact paid
  have cases : s.payloadStep gen i =
      let s'' :=
        if i.pipe.eof then
          { s.entered with state := .idle, fifoDrop := true, fifoAccept := false, gotNextSubframe := false }
        else if i.pipe.dvalid then
          if i.isEscape then s.entered.escape i.pipe.data i.crcMatch else s.entered.pack gen i.pipe.data
        else { s.entered with fifoDvalid := false }
      if s.fifoDvalid then { s'' with fifoSync := false } else s'' := rfl
  rw [cases]
  apply sync
  cases eof : i.pipe.eof with
  | true => exact ⟨rfl, rfl, rfl, by simp, by simp, by simp [takesBlock, eof]⟩
  | false =>
      cases valid : i.pipe.dvalid with
      | false =>
          refine ⟨rfl, rfl, rfl, ?_, ?_, ?_⟩
          · simp [entered, here]
          · simp [takesBlock, valid, entered]
          · simp [takesBlock, valid]
      | true =>
          cases escaped : i.isEscape with
          | true => exact escape_paid here eof valid escaped
          | false =>
              obtain ⟨inside, count⟩ := pack_inside gen s.entered i.pipe.data here
              have none : s.takesBlock i = false := by simp [takesBlock, escaped]
              refine ⟨inside.seqNo, inside.syncSeqNo, inside.framesLost, inside.state, fun _ => ?_, ?_⟩
              · rw [none]
                exact count
              · rw [none]
                exact fun set => absurd set Bool.false_ne_true

/-- In every state but FRAME_SEQ_ID nothing is counted and no pulse begins. -/
theorem loss_still {s s' : Fsm k} {i : FsmIn} (none : s.takesSeq i = false) (seqNo : s'.seqNo = s.seqNo)
    (syncSeqNo : s'.syncSeqNo = s.syncSeqNo) (quiet : s'.framesLost = false) (state : s'.state ≠ .subframeHeader) :
    Watched s' ∧ Counted s s' (s.takesSeq i) (number i) := by
  rw [none]
  exact ⟨⟨fun pulse => absurd (quiet.symm.trans pulse) Bool.false_ne_true, state⟩,
    counted_still seqNo syncSeqNo quiet⟩

theorem header_loss {s : Fsm k} (i : FsmIn) (here : s.state = .header) (quiet : s.framesLost = false) :
    Watched (s.headerStep cfg i) ∧ Counted s (s.headerStep cfg i) (s.takesSeq i) (number i) := by
  have none : s.takesSeq i = false := by simp [takesSeq, here]
  rw [headerStep]
  split
  · exact loss_still none rfl rfl quiet (by simp)
  · split
    · obtain ⟨lost, seqNo, syncSeqNo, state⟩ := headerWord_loss cfg s i.pipe.data
      refine loss_still none seqNo syncSeqNo (lost.trans quiet) ?_
      rcases state with same | same | same <;> simp [same, here]
    · exact loss_still none rfl rfl quiet (by simp [here])

theorem frameSeqId_loss {s : Fsm k} (i : FsmIn) (here : s.state = .frameSeqId) (quiet : s.framesLost = false) :
    Watched (s.frameSeqIdStep i) ∧ Counted s (s.frameSeqIdStep i) (s.takesSeq i) (number i) := by
  rw [frameSeqIdStep]
  cases eof : i.pipe.eof with
  | true => exact loss_still (by simp [takesSeq, eof]) rfl rfl quiet (by simp)
  | false =>
      cases valid : i.pipe.dvalid with
      | false => exact loss_still (by simp [takesSeq, valid]) rfl rfl quiet (by simp [here])
      | true =>
          have taken : s.takesSeq i = true := by simp [takesSeq, here, eof, valid]
          have counted := seqWord_counted s (({ s with rxFrameP1 := false } : Fsm k).latency i.rxTagCycles)
            i.pipe.data (latency_seq _ _)
          rw [taken]
          exact ⟨⟨fun _ => rfl, by simp⟩, ⟨counted.seqNo, counted.syncSeqNo, counted.framesLost, counted.count⟩⟩

theorem step_loss (gen : Generics) (cfg : RxStreamerCfg) {s : Fsm k} (watched : Watched s) (i : FsmIn) :
    Watched (s.step gen cfg i) ∧ Counted s (s.step gen cfg i) (s.takesSeq i) (number i) := by
  have quiet : s.state ≠ .payload → s.framesLost = false := by
    intro elsewhere
    by_contra lost
    exact elsewhere (watched.pulse (by simpa using lost))
  cases here : s.state with
  | idle =>
      have next : s.step gen cfg i = s.idleStep i := by rw [step, here]
      rw [next]
      refine loss_still (by simp [takesSeq, here]) rfl rfl rfl ?_
      simp only [idleStep]
      split <;> simp
  | header =>
      have next : s.step gen cfg i = s.headerStep cfg i := by rw [step, here]
      rw [next]
      exact header_loss i here (quiet (by simp [here]))
  | frameSeqId =>
      have next : s.step gen cfg i = s.frameSeqIdStep i := by rw [step, here]
      rw [next]
      exact frameSeqId_loss i here (quiet (by simp [here]))
  | subframeHeader => exact absurd here watched.unused
  | payload =>
      have next : s.step gen cfg i = s.payloadStep gen i := by rw [step, here]
      rw [next]
      have paid := payload_loss gen s i here
      exact loss_still (by simp [takesSeq, here]) paid.seqNo paid.syncSeqNo paid.framesLost paid.state
  | eof =>
      have next : s.step gen cfg i = s.eofStep := by rw [step, here]
      rw [next]
      exact loss_still (by simp [takesSeq, here]) rfl rfl (quiet (by simp [here])) (by simp [eofStep])

/-- The reports on frames with these numbers, from the registers alone. -/
def told : BitVec 15 → Bool → List (BitVec 15) → List Report
  | _, _, [] => []
  | seqNo, sync, n :: rest =>
      .frame n :: (if decide (seqNo ≠ n) && !sync then [.lost (n - seqNo).toNat] else []) ++
        told (n + 1#15) (if decide (seqNo ≠ n) then false else sync) rest

theorem reports_told {s : Fsm k} (watched : Watched s) (inputs : List FsmIn) :
    collect (step gen cfg) reports s inputs ++ (run (step gen cfg) s inputs).pulse =
      s.pulse ++ told s.seqNo s.syncSeqNo
        (collect (step gen cfg) (fun (s : Fsm k) i => if s.takesSeq i then [number i] else []) s inputs) := by
  induction inputs generalizing s with
  | nil => exact (List.append_nil _).symm
  | cons i rest ih =>
      obtain ⟨next, counted⟩ := step_loss gen cfg watched i
      rw [collect_cons, collect_cons, run_cons, List.append_assoc, ih next, reports, List.append_assoc, counted.seqNo,
        counted.syncSeqNo]
      congr 1
      cases taken : s.takesSeq i with
      | false =>
          have quiet : (s.step gen cfg i).pulse = [] := by
            rw [pulse, counted.framesLost, taken]
            rfl
          rw [quiet]
          rfl
      | true =>
          have pulsed : (s.step gen cfg i).pulse =
              if decide (s.seqNo ≠ number i) && !s.syncSeqNo then [.lost (number i - s.seqNo).toNat] else [] := by
            have lost := counted.framesLost
            rw [taken, Bool.true_and] at lost
            rw [pulse, lost]
            split
            next set => rw [counted.count (lost.trans set)]
            next => rfl
          rw [pulsed]
          simp only [if_true, told, Bool.true_and, List.cons_append, List.nil_append]

theorem number_eq {a b : Nat} (after : a < b) (near : b - a - 1 < 2 ^ 15) :
    BitVec.ofNat 15 (a + 1) = BitVec.ofNat 15 b ↔ b = a + 1 := by
  constructor
  · intro same
    have values := congrArg BitVec.toNat same
    rw [BitVec.toNat_ofNat, BitVec.toNat_ofNat] at values
    omega
  · rintro rfl
    rfl

theorem number_gap {a b : Nat} (after : a < b) (near : b - a - 1 < 2 ^ 15) :
    (BitVec.ofNat 15 b - BitVec.ofNat 15 (a + 1)).toNat = b - a - 1 := by
  rw [BitVec.toNat_sub, BitVec.toNat_ofNat, BitVec.toNat_ofNat]
  omega

/-- A receiver that has the number of the frame before reports what is missing. -/
theorem told_synced {last : Nat} {rest : List Nat} (sent : Sent (last :: rest)) :
    told (BitVec.ofNat 15 (last + 1)) false (rest.map (BitVec.ofNat 15)) = dueAfter last rest := by
  induction rest generalizing last with
  | nil => rfl
  | cons b rest ih =>
      obtain ⟨⟨after, near⟩, later⟩ := sent
      have gap : (decide (BitVec.ofNat 15 (last + 1) ≠ BitVec.ofNat 15 b) && !false) = decide (last + 1 < b) := by
        rw [Bool.not_false, Bool.and_true, decide_eq_decide, Ne, number_eq after near]
        omega
      have next : BitVec.ofNat 15 b + 1#15 = BitVec.ofNat 15 (b + 1) := (BitVec.ofNat_add b 1).symm
      rw [List.map_cons, told, gap, number_gap after near, next, ite_self, ih later, dueAfter]
      simp only [decide_eq_true_eq]

/-- One that is still to take over a number overlooks the first gap. -/
theorem told_first {last : Nat} {rest : List Nat} (sent : Sent (last :: rest)) :
    told (BitVec.ofNat 15 (last + 1)) true (rest.map (BitVec.ofNat 15)) = dueAfter last rest ↔
      Whole (last :: rest) := by
  induction rest generalizing last with
  | nil => simp [told, dueAfter, Whole]
  | cons b rest ih =>
      obtain ⟨⟨after, near⟩, later⟩ := sent
      have same := number_eq after near
      have next : BitVec.ofNat 15 b + 1#15 = BitVec.ofNat 15 (b + 1) := (BitVec.ofNat_add b 1).symm
      rw [List.map_cons, told, Bool.not_true, Bool.and_false, next, Whole, dueAfter]
      by_cases follows : b = last + 1
      · subst follows
        simp only [ne_eq, not_true_eq_false, decide_false, Bool.false_eq_true, lt_irrefl, if_false, List.nil_append,
          List.cons_append, List.cons.injEq, true_and]
        exact ih later
      · have lost : last + 1 < b := by omega
        simp only [lost, if_true, Bool.false_eq_true, if_false, List.cons_append, List.nil_append, List.cons.injEq,
          true_and, follows, false_and, iff_false]
        cases rest with
        | nil => simp [told]
        | cons c rest => simp [told]

theorem counted_cons (r : Report) (l : List Report) :
    counted (r :: l) = (match r with | .lost n => n | .frame _ => 0) + counted l := by
  rw [counted, counted, List.map_cons, List.sum_cons]

theorem counted_dueAfter (last : Nat) (rest : List Nat) : counted (dueAfter last rest) = missing (last :: rest) := by
  induction rest generalizing last with
  | nil => rfl
  | cons b rest ih =>
      rw [dueAfter, missing, List.cons_append, counted_cons, Nat.zero_add]
      by_cases lost : last + 1 < b
      · rw [if_pos lost, List.singleton_append, counted_cons, ih b]
      · rw [if_neg lost, List.nil_append, ih b]
        omega

theorem counted_due (sent : List Nat) : counted (due sent) = missing sent := by
  cases sent with
  | nil => rfl
  | cons first rest => rw [due, counted_cons, counted_dueAfter, Nat.zero_add]

theorem reset_watched : Watched (reset k) :=
  ⟨fun pulse => absurd pulse Bool.false_ne_true, by simp [reset]⟩

/-- The reports of a run depend on the numbers of its frames only. -/
theorem allReports_told (inputs : List FsmIn) :
    allReports (k := k) gen cfg inputs = told (BitVec.allOnes 15) true (frames (k := k) gen cfg inputs) :=
  reports_told reset_watched inputs

theorem told_due {sent : List Nat} (order : Sent sent) :
    told (BitVec.allOnes 15) true (sent.map (BitVec.ofNat 15)) = due sent ↔
      Whole sent ∨ ∀ first ∈ sent.head?, BitVec.ofNat 15 first ≠ BitVec.allOnes 15 := by
  cases sent with
  | nil => simp [told, due, Whole]
  | cons first rest =>
      have next : BitVec.ofNat 15 first + 1#15 = BitVec.ofNat 15 (first + 1) := (BitVec.ofNat_add first 1).symm
      rw [List.map_cons, told, Bool.not_true, Bool.and_false, next, due]
      by_cases ones : BitVec.ofNat 15 first = BitVec.allOnes 15
      · -- The else branch: the receiver goes on as if it had seen no frame yet.
        simpa [ones] using told_first order
      · have differ : BitVec.allOnes 15 ≠ BitVec.ofNat 15 first := fun same => ones same.symm
        have sync : decide (BitVec.allOnes 15 ≠ BitVec.ofNat 15 first) = true := decide_eq_true differ
        have other : ∀ n ∈ (first :: rest).head?, BitVec.ofNat 15 n ≠ BitVec.allOnes 15 := by
          rintro n ⟨rfl⟩
          exact ones
        rw [sync, if_pos rfl, told_synced order]
        exact iff_of_true rfl (.inr other)

/-- The pulses and their counts are those of the missing frames, unless the first frame has the number that
`seq_no` is reset to and a later one is missing: `sync_seq_no` then outlives the first frame. -/
theorem frames_accounted (inputs : List FsmIn) (sent : List Nat) (order : Sent sent)
    (numbers : frames (k := k) gen cfg inputs = sent.map (BitVec.ofNat 15)) :
    (allReports (k := k) gen cfg inputs = due sent ∧ counted (allReports (k := k) gen cfg inputs) = missing sent) ↔
      (Whole sent ∨ ∀ first ∈ sent.head?, BitVec.ofNat 15 first ≠ BitVec.allOnes 15) := by
  rw [allReports_told, numbers, ← told_due order]
  constructor
  · exact fun both => both.1
  · intro reported
    exact ⟨reported, reported ▸ counted_due sent⟩

/-- One word of a frame, and a frame of the default configuration that ends after its sequence number. -/
def word (data : BitVec 16) : FsmIn := ⟨⟨data, true, false, false⟩, false, true, 0⟩

def shortFrame (seq : BitVec 16) : List FsmIn :=
  ⟨⟨0, false, true, false⟩, false, true, 0⟩ ::
    ([0xffff, 0xffff, 0xffff, 0, 0, 0, 0xdbff, 0, 0, seq].map word ++ [⟨⟨0, false, false, true⟩, false, true, 0⟩])

theorem frames_accounted_wrap :
    let inputs := shortFrame 0x7ffd ++ shortFrame 0x7ffe ++ shortFrame 0x0001
    allReports (k := 2) ⟨false, 0⟩ cRxStreamerCfgDefault inputs = due [0x7ffd, 0x7ffe, 0x8001] ∧
      counted (allReports (k := 2) ⟨false, 0⟩ cRxStreamerCfgDefault inputs) = 2 :=
  (frames_accounted (shortFrame 0x7ffd ++ shortFrame 0x7ffe ++ shortFrame 0x0001) [0x7ffd, 0x7ffe, 0x8001]
    ⟨by decide, by decide, trivial⟩ (by decide)).mpr (.inr (by decide))

/-- Frames 0x7fff and 0x8003: three are missing and none is reported. -/
theorem lost_unreported :
    let inputs := shortFrame 0x7fff ++ shortFrame 0x0003
    frames (k := 2) ⟨false, 0⟩ cRxStreamerCfgDefault inputs = [0x7fff, 0x8003].map (BitVec.ofNat 15) ∧
      Sent [0x7fff, 0x8003] ∧ due [0x7fff, 0x8003] = [.frame 0x7fff, .frame 3, .lost 3] ∧
      allReports (k := 2) ⟨false, 0⟩ cRxStreamerCfgDefault inputs = [.frame 0x7fff, .frame 3] :=
  ⟨by decide, ⟨by decide, trivial⟩, by decide, by decide⟩

/-! The block numbers of one frame. -/

inductive Word where
  | frame
  | header (block : BitVec 15)
  deriving DecidableEq, Repr

/-- The words with a number, and `blocks_lost` after each. -/
def marks (gen : Generics) (cfg : RxStreamerCfg) (s : Fsm k) (i : FsmIn) : List (Word × Bool) :=
  if s.takesSeq i then [(.frame, (step gen cfg s i).blocksLost)]
  else if s.takesBlock i then [(.header (number i), (step gen cfg s i).blocksLost)]
  else []

def allMarks (gen : Generics) (cfg : RxStreamerCfg) (inputs : List FsmIn) : List (Word × Bool) :=
  collect (step gen cfg) (marks gen cfg) (reset k) inputs

/-- `blocks_lost` is set on the headers that do not follow on the one before, and on no other. -/
def LostOnGap : BitVec 15 → List (Word × Bool) → Prop
  | _, [] => True
  | _, (.frame, _) :: rest => LostOnGap 1 rest
  | next, (.header block, lost) :: rest => lost = decide (block ≠ next) ∧ LostOnGap (block + 1#15) rest

/-- The header after a gap repeats neither the number of the header before nor follows on it. -/
def GapsApart : BitVec 15 → Bool → List Word → Prop
  | _, _, [] => True
  | _, _, .frame :: rest => GapsApart 1 false rest
  | next, gap, .header block :: rest =>
      (gap = true → block ≠ next - 1#15 ∧ block ≠ next) ∧ GapsApart (block + 1#15) (decide (block ≠ next)) rest

/-- After a gap `count` is one behind the number that follows. -/
structure Expects (s : Fsm k) (next : BitVec 15) (gap : Bool) : Prop where
  watched : Watched s
  count : s.state = .payload → s.count = if gap then next - 1#15 else next

theorem step_payload {s : Fsm k} {i : FsmIn} (watched : Watched s) (after : (s.step gen cfg i).state = .payload) :
    (s.takesSeq i = true ∧ (s.step gen cfg i).count = 1) ∨ s.state = .payload := by
  cases here : s.state with
  | idle =>
      rw [step, here] at after
      simp only [idleStep] at after
      split at after <;> exact absurd after (by simp)
  | header =>
      rw [step, here] at after
      simp only [headerStep] at after
      split at after
      · exact absurd after (by simp)
      · split at after
        · obtain ⟨-, -, -, state⟩ := headerWord_loss cfg s i.pipe.data
          rcases state with same | same | same <;> exact absurd (same.symm.trans after) (by simp [here])
        · exact absurd (here.symm.trans after) (by simp)
  | frameSeqId =>
      rw [step, here] at after ⊢
      simp only [frameSeqIdStep] at after ⊢
      cases eof : i.pipe.eof with
      | true =>
          rw [eof, if_pos rfl] at after
          exact absurd after (by simp)
      | false =>
          cases valid : i.pipe.dvalid with
          | true => exact .inl ⟨by simp [takesSeq, here, eof, valid], by simp⟩
          | false =>
              simp only [eof, valid, Bool.false_eq_true, if_false] at after
              exact absurd (here.symm.trans after) (by simp)
  | subframeHeader => exact absurd here watched.unused
  | payload => exact .inr rfl
  | eof =>
      rw [step, here] at after
      exact absurd after (by simp [eofStep])

theorem takesSeq_apart {s : Fsm k} {i : FsmIn} (takes : s.takesSeq i = true) : s.state = .frameSeqId := by
  simp only [takesSeq, Bool.and_eq_true, beq_iff_eq] at takes
  exact takes.1.1

theorem takesBlock_payload {s : Fsm k} {i : FsmIn} (takes : s.takesBlock i = true) : s.state = .payload := by
  simp only [takesBlock, Bool.and_eq_true, beq_iff_eq] at takes
  exact takes.1.1.1.1

theorem step_frame {s : Fsm k} {i : FsmIn} (watched : Watched s) (takes : s.takesSeq i = true) :
    Expects (s.step gen cfg i) 1 false := by
  refine ⟨(step_loss gen cfg watched i).1, fun after => ?_⟩
  rcases step_payload watched after with ⟨-, count⟩ | payload
  · exact count
  · exact absurd (takesSeq_apart takes) (by simp [payload])

theorem step_still {s : Fsm k} {i : FsmIn} {next : BitVec 15} {gap : Bool} (expects : Expects s next gap)
    (noSeq : s.takesSeq i = false) (noBlock : s.takesBlock i = false) : Expects (s.step gen cfg i) next gap := by
  refine ⟨(step_loss gen cfg expects.watched i).1, fun after => ?_⟩
  rcases step_payload expects.watched after with ⟨takes, -⟩ | payload
  · exact absurd (noSeq.symm.trans takes) Bool.false_ne_true
  · have paid := payload_loss gen s i payload
    have same : s.step gen cfg i = s.payloadStep gen i := by rw [step, payload]
    rw [same] at after ⊢
    rw [paid.count after, noBlock, if_neg Bool.false_ne_true, expects.count payload]

/-- A header that is judged right leaves `count` as expected for the next one. -/
theorem step_header {s : Fsm k} {i : FsmIn} {next : BitVec 15} {gap : Bool} (expects : Expects s next gap)
    (takes : s.takesBlock i = true) :
    (s.step gen cfg i).blocksLost = decide (number i ≠ if gap then next - 1#15 else next) ∧
      ((gap = true → number i ≠ next - 1#15 ∧ number i ≠ next) →
        Expects (s.step gen cfg i) (number i + 1#15) (decide (number i ≠ next))) := by
  have payload := takesBlock_payload takes
  have paid := payload_loss gen s i payload
  have same : s.step gen cfg i = s.payloadStep gen i := by rw [step, payload]
  have count := expects.count payload
  constructor
  · rw [same, paid.blocksLost takes, count, decide_eq_decide]
    exact ne_comm
  · intro apart
    refine ⟨(step_loss gen cfg expects.watched i).1, fun after => ?_⟩
    rw [same] at after ⊢
    rw [paid.count after, takes, if_pos rfl, count]
    cases gap with
    | true =>
        obtain ⟨repeats, follows⟩ := apart rfl
        simp [repeats.symm, follows]
    | false =>
        by_cases follows : number i = next
        · simp [follows]
        · simp [Ne.symm follows, follows]

theorem lost_iff {next block : BitVec 15} {gap : Bool} :
    decide (block ≠ if gap then next - 1#15 else next) = decide (block ≠ next) ↔
      (gap = true → block ≠ next - 1#15 ∧ block ≠ next) := by
  cases gap with
  | false => simp
  | true =>
      have apart : next - 1#15 ≠ next := by
        intro same
        have sum := congrArg (next - ·) same
        simp at sum
      by_cases repeats : block = next - 1#15
      · simp [repeats, apart]
      · by_cases follows : block = next
        · simp [follows, apart.symm]
        · simp [repeats, follows]

theorem marks_apart {s : Fsm k} {next : BitVec 15} {gap : Bool} (expects : Expects s next gap)
    (inputs : List FsmIn) :
    LostOnGap next (collect (step gen cfg) (marks gen cfg) s inputs) ↔
      GapsApart next gap ((collect (step gen cfg) (marks gen cfg) s inputs).map Prod.fst) := by
  induction inputs generalizing s next gap with
  | nil => exact iff_of_true trivial trivial
  | cons i rest ih =>
      rw [collect_cons, marks]
      cases seq : s.takesSeq i with
      | true => exact ih (step_frame expects.watched seq)
      | false =>
          cases block : s.takesBlock i with
          | false => exact ih (step_still expects seq block)
          | true =>
              obtain ⟨lost, after⟩ := step_header expects block
              rw [if_neg Bool.false_ne_true, if_pos rfl, List.singleton_append, List.map_cons, LostOnGap, GapsApart,
                lost, lost_iff]
              constructor
              · exact fun ⟨apart, later⟩ => ⟨apart, (ih (after apart)).mp later⟩
              · exact fun ⟨apart, later⟩ => ⟨apart, (ih (after apart)).mpr later⟩

/-- `blocks_lost` marks exactly the gaps as long as no header repeats or follows on one that came after a gap:
the payload takes over the number it has seen, not the one after it. -/
theorem blocks_accounted (inputs : List FsmIn) :
    LostOnGap 1 (allMarks (k := k) gen cfg inputs) ↔
      GapsApart 1 false ((allMarks (k := k) gen cfg inputs).map Prod.fst) :=
  marks_apart ⟨reset_watched, fun payload => absurd payload (by simp [reset])⟩ inputs

/-- The words of a frame behind the escape detector, each header with a block of one word in front. -/
def headers (blocks : List (BitVec 16)) : List FsmIn :=
  (shortFrame 0).dropLast ++
    blocks.flatMap fun block =>
      [word 0x1234, word 0x5678, ⟨⟨0xcafe, false, false, false⟩, false, true, 0⟩,
        { word block with isEscape := true }]

/-- Block 1 is missing, 2 and 3 follow: both are reported. -/
theorem follower_reported :
    allMarks (k := 2) ⟨false, 0⟩ cRxStreamerCfgDefault (headers [0x8002, 0x8003]) =
        [(.frame, false), (.header 2, true), (.header 3, true)] ∧
      ¬LostOnGap 1 (allMarks (k := 2) ⟨false, 0⟩ cRxStreamerCfgDefault (headers [0x8002, 0x8003])) := by
  have marks : allMarks (k := 2) ⟨false, 0⟩ cRxStreamerCfgDefault (headers [0x8002, 0x8003]) =
      [(.frame, false), (.header 2, true), (.header 3, true)] := by decide
  refine ⟨marks, ?_⟩
  rw [marks]
  exact fun ⟨_, lost, _⟩ => absurd lost (by decide)

end WrCores.Streamers.Rx.Fsm
