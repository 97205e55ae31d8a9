import WrCores.Endpoint.RxVlanFrames

/-!
What a cycle of `p_tag_untag` does to the newest frame. A phase says for each state how far its output is: what the
table makes of the words that came is what was shown and what the unit still holds.
-/

namespace WrCores.Endpoint.VlanUnit

open Clocked
open RxBuffer (Word fabWord)
open RxHead (oneHot oneHot_bit oneHot_next)

/-! ### What a cycle in DATA does -/

section Data

variable (regs : VlanRegs) (s : VlanUnit) (snk : InternalFabric) (srcDreq : Bool)

def usesPvid : Bool := s.atVid snk && (s.decisionAt regs snk).usePvid

/-- The word as it goes on. -/
def passedWord : Word := if s.usesPvid regs snk then withPvid regs (fabWord snk) else fabWord snk

/-- Nothing decides against the frame, and nothing is inserted. -/
structure Calm : Prop where
  apart : s.atEthertype snk = true → s.atVid snk = false
  inserts : s.insertsAt regs snk = false
  refuses : s.refusesAt regs snk = false
  admits : s.atVid snk = true → (s.decisionAt regs snk).admits = true
  eof : snk.eof = false

/-- The variables and registers behind the word. -/
def noted (v : VlanUnit) : VlanUnit :=
  let src := if s.usesPvid regs snk then withVid v.vSrcFab regs.pvid else v.vSrcFab
  { v with
    vStoredFab := if s.usesPvid regs snk then withVid v.vStoredFab regs.pvid else v.vStoredFab
    vSrcFab := src
    vid := if s.atVid snk then src.data.extractLsb' 0 12 else v.vid
    storedEthertype := if s.atEthertype snk then snk.data else v.storedEthertype
    isTagged := if s.atEthertype snk then snk.data == 0x8100 else v.isTagged
    prioInt :=
      if s.atVid snk then
        if regs.fixPrio || (s.decisionAt regs snk).useFixedPrio then regs.prioVal else snk.data.extractLsb' 13 3
      else v.prioInt }

variable {regs s snk srcDreq}

theorem seeEthertype_calm (calm : Calm regs s snk) (v : VlanUnit) (at6 : s.atEthertype snk = true) :
    v.seeEthertype regs snk.data = noted regs s snk v := by
  have inserts := calm.inserts
  have refuses := calm.refuses
  simp only [insertsAt, refusesAt, untaggedAt, at6, Bool.true_and] at inserts refuses
  have apart := calm.apart at6
  unfold seeEthertype noted usesPvid
  by_cases tag : snk.data = 0x8100#16
  · simp [tag, apart, at6]
  · cases qmode : regs.qmode <;> simp_all

theorem seeVid_calm (calm : Calm regs s snk) (v : VlanUnit) (at7 : s.atVid snk = true) :
    v.seeVid regs (combTagType s.isTagged snk.data) snk.data = noted regs s snk v := by
  have admits := calm.admits at7
  have at6 : s.atEthertype snk = false := by
    cases at6 : s.atEthertype snk with
    | false => rfl
    | true => exact absurd (calm.apart at6) (by simp [at7])
  unfold seeVid noted usesPvid
  unfold decisionAt at *
  cases use : (fVlanDecision (combTagType s.isTagged snk.data) regs.qmode).usePvid <;> simp [admits, use, at6, at7]

theorem data_calm (calm : Calm regs s snk) : s.data regs snk srcDreq =
    { noted regs s snk (s.takeWord snk srcDreq) with
      hdrOffset := if snk.dvalid then s.hdrOffset <<< 1 else s.hdrOffset }.passOn := by
  unfold VlanUnit.data
  cases at6 : s.atEthertype snk with
  | true =>
      simp only [calm.apart at6, calm.eof, seeEthertype_calm calm _ at6]
      rfl
  | false =>
      cases at7 : s.atVid snk with
      | true =>
          simp only [calm.eof, seeVid_calm calm _ at7]
          rfl
      | false => simp [calm.eof, noted, usesPvid, at6, at7]

theorem atVid_dvalid (at7 : s.atVid snk = true) : snk.dvalid = true := by
  simp only [atVid, Bool.and_eq_true] at at7
  exact at7.1.2

theorem usesPvid_dvalid (use : s.usesPvid regs snk = true) : s.atVid snk = true ∧ snk.dvalid = true := by
  simp only [usesPvid, Bool.and_eq_true] at use
  exact ⟨use.1, atVid_dvalid use.1⟩

theorem data_pass (calm : Calm regs s snk) (served : snk.dvalid = true → srcDreq = true) :
    let v := s.data regs snk srcDreq
    v.state = .data ∧ v.src.eof = false ∧ v.src.error = false ∧ v.src.dvalid = snk.dvalid ∧
      (snk.dvalid = true → fabWord v.src = s.passedWord regs snk) ∧
      v.hdrOffset = (if snk.dvalid then s.hdrOffset <<< 1 else s.hdrOffset) ∧
      v.isTagged = (if s.atEthertype snk then snk.data == 0x8100 else s.isTagged) ∧
      v.vid = (if s.atVid snk then (s.passedWord regs snk).data.extractLsb' 0 12 else s.vid) := by
  rw [data_calm calm]
  have named := @atVid_dvalid s snk
  cases word : snk.dvalid <;> cases use : s.usesPvid regs snk <;>
    simp_all [noted, takeWord, passOn, passedWord, withPvid, withVid, fabWord]

theorem data_keep (calm : Calm regs s snk) (word : snk.dvalid = true) (stall : srcDreq = false)
    (fresh : s.vSrcFab.dvalid = false) :
    let v := s.data regs snk srcDreq
    v.state = .flushStall ∧ v.src.eof = false ∧ v.src.error = false ∧ v.src.dvalid = false ∧
      v.storedFab.dvalid = true ∧ fabWord v.storedFab = s.passedWord regs snk ∧ v.hdrOffset = s.hdrOffset <<< 1 ∧
      v.isTagged = (if s.atEthertype snk then snk.data == 0x8100 else s.isTagged) ∧
      (s.usesPvid regs snk = true → v.vid = regs.pvid) ∧ (s.atVid snk = false → v.vid = s.vid) := by
  rw [data_calm calm]
  have named := @usesPvid_dvalid regs s snk
  cases use : s.usesPvid regs snk <;>
    simp_all [noted, takeWord, passOn, passedWord, withPvid, withVid, fabWord, low_vid]

theorem untaggedAt_word (first : s.untaggedAt snk = true) :
    s.atEthertype snk = true ∧ snk.dvalid = true ∧ ¬snk.data = 0x8100#16 := by
  simp only [untaggedAt, atEthertype, Bool.and_eq_true, bne_iff_ne] at first
  exact ⟨by simp only [atEthertype, first.1.1, first.1.2, Bool.and_self], first.1.2, first.2⟩

theorem data_insert (inserts : s.insertsAt regs snk = true) (apart : s.atVid snk = false) (eof : snk.eof = false)
    (dreq : srcDreq = true) :
    let v := s.data regs snk srcDreq
    v.state = .insertTag ∧ v.src.eof = false ∧ v.src.error = false ∧ v.src.dvalid = true ∧ fabWord v.src = tpid ∧
      v.hdrOffset = s.hdrOffset <<< 1 ∧ v.storedEthertype = snk.data ∧ v.dreqMask = false ∧ v.vid = s.vid := by
  simp only [insertsAt, Bool.and_eq_true, beq_iff_eq] at inserts
  obtain ⟨first, access⟩ := inserts
  obtain ⟨at6, word, untagged⟩ := untaggedAt_word first
  simp [VlanUnit.data, takeWord, seeEthertype, passOn, at6, apart, eof, dreq, word, untagged, access, fabWord, tpid]

theorem data_refuse (refuses : s.refusesAt regs snk = true) (apart : s.atVid snk = false) (eof : snk.eof = false) :
    let v := s.data regs snk srcDreq
    v.state = .discardFrame ∧ v.src.eof = false ∧ v.src.error = false ∧ v.src.dvalid = false ∧ v.vid = s.vid := by
  simp only [refusesAt, Bool.and_eq_true, beq_iff_eq] at refuses
  obtain ⟨first, trunk⟩ := refuses
  obtain ⟨at6, word, untagged⟩ := untaggedAt_word first
  cases dreq : srcDreq <;>
    simp [VlanUnit.data, takeWord, seeEthertype, passOn, at6, apart, eof, word, untagged, trunk]

/-- The tag of a frame that is not admitted is still shown, if it is asked for. -/
theorem data_refuseTag (at7 : s.atVid snk = true) (apart : s.atEthertype snk = false) (eof : snk.eof = false)
    (refused : (s.decisionAt regs snk).admits = false) (own : (s.decisionAt regs snk).usePvid = false)
    (fresh : srcDreq = false → s.vSrcFab.dvalid = false) :
    let v := s.data regs snk srcDreq
    v.state = .discardFrame ∧ v.src.eof = false ∧ v.src.error = false ∧ v.src.dvalid = srcDreq ∧
      (srcDreq = true → fabWord v.src = fabWord snk ∧ v.vid = snk.data.extractLsb' 0 12) := by
  have word := atVid_dvalid at7
  unfold decisionAt at refused own
  cases dreq : srcDreq <;>
    simp_all [VlanUnit.data, takeWord, seeVid, passOn, fabWord]

theorem data_eof (eof : snk.eof = true) (alone : snk.dvalid = false) :
    let v := s.data regs snk srcDreq
    v.state = (if srcDreq then .waitFrame else .endFrame) ∧ v.src.eof = srcDreq ∧ v.src.error = false ∧
      v.src.dvalid = false ∧ v.vid = s.vid := by
  cases dreq : srcDreq <;> simp [VlanUnit.data, takeWord, seeEof, passOn, atEthertype, atVid, eof, alone]

/-- No word is put on the output. -/
def Withholds (v : VlanUnit) : Prop := v.state ≠ .insertTag ∧ v.vSrcFab.dvalid = false

theorem Withholds.passOn {v : VlanUnit} (withholds : Withholds v) : v.passOn.src.dvalid = false := by
  simp [VlanUnit.passOn, withholds.1, withholds.2]

theorem Withholds.seeVid {v : VlanUnit} (withholds : Withholds v) (type : TagType) (data : BitVec 16) :
    Withholds (v.seeVid regs type data) := by
  cases admits : (fVlanDecision type regs.qmode).admits <;> cases use : (fVlanDecision type regs.qmode).usePvid <;>
    simp [Withholds, VlanUnit.seeVid, withVid, admits, use, withholds.1, withholds.2]

theorem withholds_ethertype (word : snk.dvalid = true) (keeps : s.keeps regs snk = true) :
    Withholds (if s.atEthertype snk then (s.takeWord snk false).seeEthertype regs snk.data
      else s.takeWord snk false) := by
  simp only [VlanUnit.keeps, insertsAt, refusesAt, untaggedAt, Bool.and_eq_true, Bool.or_eq_true] at keeps
  cases at6 : s.atEthertype snk with
  | false => simp_all [Withholds, takeWord]
  | true =>
      cases tag : snk.data == 0x8100 <;> cases qmode : regs.qmode <;>
        simp_all [Withholds, takeWord, seeEthertype]

theorem gap_src (gap : snk.dvalid = false) : (s.data regs snk false).src.dvalid = false := by
  cases eof : snk.eof <;> simp [VlanUnit.data, takeWord, VlanUnit.passOn, atEthertype, atVid, gap, seeEof, eof]

theorem keeps_src (word : snk.dvalid = true) (keeps : s.keeps regs snk = true) (eof : snk.eof = false) :
    (s.data regs snk false).src.dvalid = false := by
  have before := withholds_ethertype word keeps
  unfold VlanUnit.data
  simp only [eof, Bool.false_eq_true, if_false]
  refine Withholds.passOn ?_
  cases at7 : s.atVid snk with
  | false => exact before
  | true => exact before.seeVid _ snk.data

end Data

/-! ### How far a frame is -/

section Phases

variable (regs : VlanRegs) (s : VlanUnit) (heard shown : Frame)

/-- The words of the output, with the one that stands there now. -/
def out : List Word := (shown.show s.src).words

/-- `hdr_offset` counts the words until the header is over. -/
def Counts (words : List Word) : Prop :=
  ∃ k, s.hdrOffset = oneHot k ∧
    ((k = words.length ∧ (k = 7 → s.isTagged = tagged words)) ∨
      (8 ≤ k ∧ 7 ≤ words.length ∧ tagged words = false))

def Tells (words : List Word) : Prop := ∀ vid ∈ tagVid? words, s.vid = vid

def Unflagged : Prop := s.src.eof = false ∧ s.src.error = false

def Live : Prop := heard.endings = [] ∧ shown.endings = [] ∧ Unflagged s

/-- The output will be ended by an error. -/
def Fails (words : List Word) : Prop :=
  (heard.endings = [.error] ∧ table regs heard.words = some words) ∨
    (table regs heard.words = none ∧ words <+: heard.words ∧ heard.endings.length ≤ 1)

def stored : List Word := if s.storedFab.dvalid then [fabWord s.storedFab] else []

/-- The tag is on its way in front of the ethertype `w`: `j` counts in the place of `hdr_offset`. -/
structure Inserts (asked : Bool) (header : List Word) (w : Word) (j : Nat) : Prop where
  access : regs.qmode = .access
  front : header.length = 6
  untagged : (w.data == 0x8100) = false
  plain : w.addr = cWrfData ∧ w.bytesel = false
  range : j = 7 ∨ j = 8 ∨ j = 9
  hdr : s.hdrOffset = oneHot j
  ethertype : s.storedEthertype = w.data
  whole : s.src.bytesel = false
  mask : s.dreqMask = true → j = 9
  asked : asked = true → j = 7 ∧ s.src.dvalid = true
  words : heard.words = header ++ w :: if j = 7 then [] else stored s
  out : out s shown = header ++ [tpid, portTci regs, w].take (j - 6)
  vid : j ≠ 7 → s.vid = regs.pvid

inductive Phase (asked : Bool) : Prop
  | data (state : s.state = .data) (live : Live s heard shown) (counts : Counts s heard.words)
      (goes : table regs heard.words = some (out s shown)) (tells : Tells s (out s shown))
  | flush (state : s.state = .flushStall) (live : Live s heard shown) (idle : asked = false)
      (kept : s.storedFab.dvalid = true) (counts : Counts s heard.words)
      (goes : table regs heard.words = some (out s shown ++ [fabWord s.storedFab]))
      (tells : Tells s (out s shown ++ [fabWord s.storedFab]))
  | insert (state : s.state = .insertTag) (live : Live s heard shown) (header : List Word) (w : Word) (j : Nat)
      (inserts : Inserts regs s heard shown asked header w j)
  | finish (state : s.state = .endFrame) (ended : heard.endings = [.eof]) (coming : shown.endings = [])
      (flags : Unflagged s) (empty : s.src.dvalid = false) (goes : table regs heard.words = some (out s shown))
      (tells : Tells s (out s shown))
  | discard (state : s.state = .discardFrame) (coming : shown.endings = []) (flags : Unflagged s)
      (fails : Fails regs heard (out s shown)) (tells : Tells s (out s shown))
  | closing (state : s.state = .waitFrame) (coming : shown.endings = []) (empty : s.src.dvalid = false)
      (flags : (s.src.eof = true ∧ s.src.error = false ∧ heard.endings = [.eof] ∧
          table regs heard.words = some (out s shown)) ∨
        (s.src.eof = false ∧ s.src.error = true ∧ Fails regs heard (out s shown)))
      (tells : Tells s (out s shown))
  | closed (state : s.state = .waitFrame) (ended : shown.endings.length = 1) (empty : s.src.dvalid = false)
      (flags : Unflagged s)
      (right : (heard.endings = [.eof] ∧ shown.endings = [.eof] ∧ table regs heard.words = some shown.words) ∨
        (shown.endings = [.error] ∧ Fails regs heard shown.words))

variable {regs s heard shown}

/-- What is beside `p_tag_untag` makes no difference. -/
theorem Phase.recast {asked : Bool} (phase : Phase regs s heard shown asked) (done : Bool) (tclass : BitVec 3) :
    Phase regs { s with tagDone := done, tclass := tclass } heard shown asked := by
  cases phase with
  | data state live counts goes tells => exact .data state live counts goes tells
  | flush state live idle kept counts goes tells => exact .flush state live idle kept counts goes tells
  | insert state live header w j inserts =>
      obtain ⟨access, six, untagged, plain, range, hdr, ethertype, whole, mask, asks, words, out, vid⟩ := inserts
      exact .insert state live header w j
        ⟨access, six, untagged, plain, range, hdr, ethertype, whole, mask, asks, words, out, vid⟩
  | finish state ended coming flags empty goes tells => exact .finish state ended coming flags empty goes tells
  | discard state coming flags fails tells => exact .discard state coming flags fails tells
  | closing state coming empty flags tells => exact .closing state coming empty flags tells
  | closed state ended empty flags right => exact .closed state ended empty flags right

/-! ### One cycle -/

@[simp] theorem words_show (shown : Frame) (src : InternalFabric) :
    (shown.show src).words = shown.words ++ if src.dvalid then [fabWord src] else [] := rfl

theorem endings_show (flags : Unflagged s) : (shown.show s.src).endings = shown.endings := by
  simp [Frame.show, flags.1, flags.2]

theorem out_next (v : VlanUnit) :
    out v (shown.show s.src) = out s shown ++ if v.src.dvalid then [fabWord v.src] else [] := rfl

theorem out_empty (s : VlanUnit) (shown : Frame) (v : VlanUnit) (empty : v.src.dvalid = false) : out v
    (shown.show s.src) = out s shown := by
  simp [out_next, empty]

/-- What the frames on `snk_fab_i` promise for a cycle that does not start one. -/
structure Comes (asked : Bool) (heard : Frame) (snk : InternalFabric) : Prop where
  sof : snk.sof = false
  coming : (snk.dvalid || snk.eof || snk.error) = true → heard.endings = []
  asked : (snk.dvalid || snk.eof || snk.error) = true → asked = true

theorem Comes.quiet {asked : Bool} {snk : InternalFabric} (comes : Comes asked heard snk)
    (apart : heard.endings ≠ [] ∨ asked = false) : snk.dvalid = false ∧ snk.eof = false ∧ snk.error = false := by
  have none : (snk.dvalid || snk.eof || snk.error) = false := by
    rw [← Bool.not_eq_true]
    intro some
    rcases apart with ended | idle
    · exact ended (comes.coming some)
    · rw [comes.asked some] at idle
      exact absurd idle (by simp)
  simp only [Bool.or_eq_false_iff] at none
  exact ⟨none.1.1, none.1.2, none.2⟩

theorem hear_quiet {snk : InternalFabric} (quiet : snk.dvalid = false ∧ snk.eof = false ∧ snk.error = false) :
    heard.hear snk = heard := by
  simp [Frame.hear, quiet.1, quiet.2.1, quiet.2.2]

theorem hear_words (heard : Frame) (snk : InternalFabric) :
    ∃ more, (heard.hear snk).words = heard.words ++ more := by
  unfold Frame.hear
  split
  · exact ⟨[], by simp⟩
  · exact ⟨_, rfl⟩

theorem hear_endings {asked : Bool} {snk : InternalFabric} (comes : Comes asked heard snk)
    (few : heard.endings.length ≤ 1) : (heard.hear snk).endings.length ≤ 1 := by
  by_cases coming : heard.endings = []
  · unfold Frame.hear
    cases snk.error <;> cases snk.eof <;> simp [coming]
  · rw [hear_quiet (comes.quiet (.inl coming))]
    exact few

/-- A frame that fails goes on failing, whatever comes of it. -/
theorem Fails.hear {asked : Bool} {snk : InternalFabric} {words : List Word} (fails : Fails regs heard words)
    (comes : Comes asked heard snk) : Fails regs (heard.hear snk) words := by
  rcases fails with ⟨ended, goes⟩ | ⟨refused, part, few⟩
  · rw [hear_quiet (comes.quiet (.inl (by simp [ended])))]
    exact .inl ⟨ended, goes⟩
  · obtain ⟨more, longer⟩ := hear_words heard snk
    refine .inr ⟨?_, ?_, hear_endings comes few⟩
    · rw [longer]
      exact table_none refused more
    · rw [longer]
      exact part.trans (List.prefix_append _ _)

theorem Phase.closed_step {asked : Bool} {i : In} (state : s.state = .waitFrame) (empty : s.src.dvalid = false)
    (comes : Comes asked heard i.snkFab) (spares : Spares regs s i)
    (right : ((heard.endings = [.eof] ∧ (shown.show s.src).endings = [.eof] ∧
        table regs heard.words = some (shown.show s.src).words) ∨
      ((shown.show s.src).endings = [.error] ∧ Fails regs heard (shown.show s.src).words))) :
    Phase regs (s.tagUntag regs i.snkFab i.srcDreq) (heard.hear i.snkFab) (shown.show s.src)
      (s.snkDreq i.srcDreq) := by
  have error : i.snkFab.error = false := by
    cases error : i.snkFab.error with
    | false => rfl
    | true => exact absurd state (spares.error error).2
  have idle : s.tagUntag regs i.snkFab i.srcDreq = { s with
      dreqMask := true, src := { s.src with eof := false, error := false }, isTagged := false
      isTagInserted := false, prioInt := regs.prioVal, vid := 0 } := by
    simp [tagUntag, error, state, comes.sof]
  rw [idle]
  refine .closed state ?_ empty ⟨rfl, rfl⟩ ?_
  · rcases right with ⟨-, ended, -⟩ | ⟨ended, -⟩ <;> rw [ended] <;> rfl
  · rcases right with ⟨ended, same, goes⟩ | ⟨ended, fails⟩
    · rw [hear_quiet (comes.quiet (.inl (by simp [ended])))]
      exact .inl ⟨ended, same, goes⟩
    · exact .inr ⟨ended, fails.hear comes⟩

section Cycle

variable {asked : Bool} {i : In} (comes : Comes asked heard i.snkFab) (spares : Spares regs s i)

include comes

include spares in
theorem closing_step (state : s.state = .waitFrame) (coming : shown.endings = []) (empty : s.src.dvalid = false)
    (flags : (s.src.eof = true ∧ s.src.error = false ∧ heard.endings = [.eof] ∧
        table regs heard.words = some (out s shown)) ∨
      (s.src.eof = false ∧ s.src.error = true ∧ Fails regs heard (out s shown))) :
    Phase regs (s.tagUntag regs i.snkFab i.srcDreq) (heard.hear i.snkFab) (shown.show s.src)
      (s.snkDreq i.srcDreq) := by
  refine Phase.closed_step state empty comes spares ?_
  rcases flags with ⟨eof, error, ended, goes⟩ | ⟨eof, error, fails⟩
  · exact .inl ⟨ended, by simp [Frame.show, coming, eof, error], goes⟩
  · exact .inr ⟨by simp [Frame.show, coming, eof, error], fails⟩

theorem finish_step (state : s.state = .endFrame) (ended : heard.endings = [.eof]) (coming : shown.endings = [])
    (flags : Unflagged s) (empty : s.src.dvalid = false) (goes : table regs heard.words = some (out s shown))
    (tells : Tells s (out s shown)) :
    Phase regs (s.tagUntag regs i.snkFab i.srcDreq) (heard.hear i.snkFab) (shown.show s.src)
      (s.snkDreq i.srcDreq) := by
  have quiet := comes.quiet (.inl (by simp [ended]))
  have coming' : (shown.show s.src).endings = [] := by rw [endings_show flags, coming]
  rw [hear_quiet quiet]
  cases dreq : i.srcDreq with
  | false =>
      have same : s.tagUntag regs i.snkFab false = s := by simp [tagUntag, quiet.2.2, state]
      rw [same]
      refine .finish state ended coming' flags empty ?_ ?_
      all_goals rw [out_empty s shown s empty]; assumption
  | true =>
      have next : s.tagUntag regs i.snkFab true = { s with
          src := { s.src with eof := true, dvalid := false }, state := .waitFrame } := by
        simp [tagUntag, quiet.2.2, state]
      rw [next]
      refine .closing rfl coming' rfl (.inl ⟨rfl, flags.2, ended, ?_⟩) ?_
      all_goals rw [out_empty s shown _ rfl]; assumption

include spares in
theorem discard_step (state : s.state = .discardFrame) (coming : shown.endings = []) (flags : Unflagged s)
    (fails : Fails regs heard (out s shown)) (tells : Tells s (out s shown)) :
    Phase regs (s.tagUntag regs i.snkFab i.srcDreq) (heard.hear i.snkFab) (shown.show s.src)
      (s.snkDreq i.srcDreq) := by
  have coming' : (shown.show s.src).endings = [] := by rw [endings_show flags, coming]
  have stays (empty : s.src.dvalid = false)
    (same : s.tagUntag regs i.snkFab i.srcDreq = { s with state := .discardFrame }) :
      Phase regs (s.tagUntag regs i.snkFab i.srcDreq) (heard.hear i.snkFab) (shown.show s.src)
        (s.snkDreq i.srcDreq) := by
    rw [same]
    refine .discard rfl coming' flags ?_ ?_
    · rw [out_empty s shown { s with state := .discardFrame } empty]
      exact fails.hear comes
    · rw [out_empty s shown { s with state := .discardFrame } empty]
      exact tells
  cases error : i.snkFab.error with
  | true => exact stays (spares.error error).1 (by simp [tagUntag, error])
  | false =>
      cases dreq : i.srcDreq with
      | false =>
          rw [dreq] at stays
          have same : s.tagUntag regs i.snkFab false = s := by simp [tagUntag, error, state]
          exact stays (spares.discard state dreq) (by rw [same, ← state])
      | true =>
          have next : s.tagUntag regs i.snkFab true = { s with
              src := { s.src with error := true, dvalid := false }, state := .waitFrame } := by
            simp [tagUntag, error, state]
          rw [next]
          refine .closing rfl coming' rfl (.inr ⟨flags.1, rfl, ?_⟩) ?_
          · rw [out_empty s shown _ rfl]
            exact fails.hear comes
          · rw [out_empty s shown _ rfl]
            exact tells

theorem flush_step (state : s.state = .flushStall) (live : Live s heard shown) (idle : asked = false)
    (kept : s.storedFab.dvalid = true) (counts : Counts s heard.words)
    (goes : table regs heard.words = some (out s shown ++ [fabWord s.storedFab]))
    (tells : Tells s (out s shown ++ [fabWord s.storedFab])) :
    Phase regs (s.tagUntag regs i.snkFab i.srcDreq) (heard.hear i.snkFab) (shown.show s.src)
      (s.snkDreq i.srcDreq) := by
  obtain ⟨open', coming, flags⟩ := live
  have quiet := comes.quiet (.inr idle)
  have coming' : (shown.show s.src).endings = [] := by rw [endings_show flags, coming]
  rw [hear_quiet quiet]
  cases dreq : i.srcDreq with
  | false =>
      have next : s.tagUntag regs i.snkFab false = { s with src := { s.src with dvalid := false } } := by
        simp [tagUntag, quiet.2.2, state]
      rw [next]
      refine .flush state ⟨open', coming', flags⟩ rfl kept counts ?_ ?_
      all_goals rw [out_empty s shown _ rfl]; assumption
  | true =>
      have next : s.tagUntag regs i.snkFab true = { s with
          src := { s.src with
            addr := s.storedFab.addr, data := s.storedFab.data, dvalid := true, bytesel := s.storedFab.bytesel }
          state := .data } := by
        simp [tagUntag, quiet.2.2, state, kept]
      rw [next]
      exact .data rfl ⟨open', coming', flags⟩ counts goes tells

include spares in
theorem insert_step (state : s.state = .insertTag) (live : Live s heard shown) (header : List Word) (w : Word)
    (j : Nat)
    (inserts : Inserts regs s heard shown asked header w j) :
    Phase regs (s.tagUntag regs i.snkFab i.srcDreq) (heard.hear i.snkFab) (shown.show s.src)
      (s.snkDreq i.srcDreq) := by
  obtain ⟨open', coming, flags⟩ := live
  have coming' : (shown.show s.src).endings = [] := by rw [endings_show flags, coming]
  have error : i.snkFab.error = false := by
    cases error : i.snkFab.error with
    | false => rfl
    | true =>
        have shows := (inserts.asked (comes.asked (by simp [error]))).2
        rw [(spares.error error).1] at shows
        exact absurd shows (by simp)
  obtain ⟨eof, served⟩ := spares.insert state error
  have mask : j ≠ 9 → s.dreqMask = false := by
    intro early
    rw [← Bool.not_eq_true]
    exact fun mask => early (inserts.mask mask)
  cases dreq : i.srcDreq with
  | false =>
      have gap : i.snkFab.dvalid = false := by
        rw [← Bool.not_eq_true]
        intro word
        rw [served word] at dreq
        exact absurd dreq (by simp)
      have next : s.tagUntag regs i.snkFab false = { s with src := { s.src with dvalid := false } } := by
        simp [tagUntag, error, state, insertTag]
      rw [hear_quiet ⟨gap, eof, error⟩, next]
      refine .insert state ⟨open', coming', flags⟩ header w j
        { inserts with asked := fun asks => absurd asks (by simp [snkDreq]), out := ?_ }
      rw [out_empty s shown _ rfl]
      exact inserts.out
  | true =>
      have seven := oneHot_bit j 7 (by omega)
      have eight := oneHot_bit j 8 (by omega)
      have nine := oneHot_bit j 9 (by omega)
      have shift := oneHot_next j
      have quiet : j ≠ 7 → i.snkFab.dvalid = false ∧ i.snkFab.eof = false ∧ i.snkFab.error = false := by
        intro late
        refine comes.quiet (.inr ?_)
        rw [← Bool.not_eq_true]
        exact fun asks => late (inserts.asked asks).1
      rcases inserts.range with rfl | rfl | rfl
      · have next : s.tagUntag regs i.snkFab true = { s with
            src := { s.src with addr := cWrfData, data := regs.prioVal ++ 0#1 ++ regs.pvid, dvalid := true }
            vid := regs.pvid, dreqMask := false
            storedFab := { s.storedFab with
              bytesel := i.snkFab.bytesel, data := i.snkFab.data, addr := i.snkFab.addr, dvalid := i.snkFab.dvalid }
            hdrOffset := oneHot 8 } := by
          simp [-BitVec.getLsbD_eq_getElem, tagUntag, error, state, insertTag, inserts.hdr, seven, eight, nine, shift]
        rw [next]
        refine .insert state ⟨by simp [Frame.hear, error, eof, open'], coming', flags⟩ header w 8
          { inserts with
            range := .inr (.inl rfl), hdr := rfl, mask := fun mask => absurd mask (by simp)
            asked := fun asks => absurd asks (by simp [snkDreq, mask]), vid := fun _ => rfl
            words := ?_, out := ?_ }
        · simp [Frame.hear, error, inserts.words, stored, fabWord]
        · rw [out_next, inserts.out]
          simp [fabWord, inserts.whole, portTci]
      · have next : s.tagUntag regs i.snkFab true = { s with
            src := { s.src with addr := cWrfData, data := s.storedEthertype, dvalid := true }
            dreqMask := true, hdrOffset := oneHot 9 } := by
          simp [-BitVec.getLsbD_eq_getElem, tagUntag, error, state, insertTag, inserts.hdr, seven, eight, nine, shift]
        rw [next, hear_quiet (quiet (by omega))]
        refine .insert state ⟨open', coming', flags⟩ header w 9
          { inserts with
            range := .inr (.inr rfl), hdr := rfl, mask := fun _ => rfl
            asked := fun asks => absurd asks (by simp [snkDreq, mask]), vid := fun _ => inserts.vid (by omega)
            words := ?_, out := ?_ }
        · exact inserts.words
        · have ethertype : w = ⟨cWrfData, s.storedEthertype, s.src.bytesel⟩ := by
            rw [inserts.whole, inserts.ethertype, ← inserts.plain.1, ← inserts.plain.2]
          rw [out_next, inserts.out]
          simp [fabWord, ethertype]
      · have next : s.tagUntag regs i.snkFab true = { s with
            src := { s.src with
              addr := s.storedFab.addr, data := s.storedFab.data, dvalid := s.storedFab.dvalid
              bytesel := s.storedFab.bytesel }
            dreqMask := true, state := .data, hdrOffset := oneHot 10 } := by
          simp [-BitVec.getLsbD_eq_getElem, tagUntag, error, state, insertTag, inserts.hdr, seven, eight, nine, shift]
        rw [next, hear_quiet (quiet (by omega))]
        have words : heard.words = header ++ w :: stored s := inserts.words
        have all : out s shown ++ stored s = header ++ tpid :: portTci regs :: w :: stored s := by
          rw [inserts.out]
          simp
        refine .data rfl ⟨open', coming', flags⟩ ⟨10, rfl, .inr ⟨by omega, ?_, ?_⟩⟩ ?_ ?_
        · simp [words, inserts.front]
          omega
        · rw [words, tagged_header header inserts.front, inserts.untagged]
        · rw [words, table_access header inserts.front inserts.untagged inserts.access]
          exact congrArg some all.symm
        · intro vid named
          have shows : tagVid? (out s shown ++ stored s) = some vid := named
          rw [all, tagVid_port header inserts.front] at shows
          rw [← Option.some.inj shows]
          exact inserts.vid (by omega)

omit comes in
/-- What a word is to the unit. -/
theorem Counts.word (counts : Counts s heard.words) (word : i.snkFab.dvalid = true) :
    (s.atEthertype i.snkFab = false ∧ s.atVid i.snkFab = false ∧ heard.words.length ≠ 6 ∧
        (heard.words.length = 7 → tagged heard.words = false)) ∨
      (s.atEthertype i.snkFab = true ∧ s.atVid i.snkFab = false ∧ heard.words.length = 6) ∨
      (s.atEthertype i.snkFab = false ∧ s.atVid i.snkFab = true ∧ heard.words.length = 7 ∧
        tagged heard.words = true ∧ s.isTagged = true) := by
  obtain ⟨k, hdr, place⟩ := counts
  have six := oneHot_bit k 6 (by omega)
  have seven := oneHot_bit k 7 (by omega)
  have at6 : s.atEthertype i.snkFab = decide (6 = k) := by rw [atEthertype, hdr, six, word, Bool.and_true]
  have at7 : s.atVid i.snkFab = (decide (7 = k) && s.isTagged) := by rw [atVid, hdr, seven, word, Bool.and_true]
  rw [at6, at7]
  rcases place with ⟨rfl, same⟩ | ⟨late, typed, untagged⟩
  · by_cases first : heard.words.length = 6
    · exact .inr (.inl (by simp [first]))
    · by_cases second : heard.words.length = 7
      · cases tag : s.isTagged with
        | true => exact .inr (.inr (by simp [second, ← same second, tag]))
        | false => exact .inl (by simp [second, ← same second, tag])
      · exact .inl (by simp [first, second]; omega)
  · exact .inl ⟨by simp; omega, by simp; omega, by omega, fun _ => untagged⟩

omit comes in
theorem Counts.next {v : VlanUnit} (counts : Counts s heard.words) (word : i.snkFab.dvalid = true)
    (hdr : v.hdrOffset = s.hdrOffset <<< 1)
    (tag : v.isTagged = if s.atEthertype i.snkFab then i.snkFab.data == 0x8100 else s.isTagged) :
    Counts v (heard.words ++ [fabWord i.snkFab]) := by
  have kind := counts.word word
  obtain ⟨k, place, counted⟩ := counts
  refine ⟨k + 1, by rw [hdr, place, oneHot_next], ?_⟩
  rcases counted with ⟨rfl, -⟩ | ⟨late, typed, untagged⟩
  · refine .inl ⟨by simp, fun seven => ?_⟩
    have six : heard.words.length = 6 := by omega
    rcases kind with ⟨-, -, other, -⟩ | ⟨at6, -, -⟩ | ⟨-, -, other, -⟩
    · exact absurd six other
    · rw [tag, at6, tagged_header heard.words six]
      rfl
    · omega
  · exact .inr ⟨by omega, by simp; omega, by rw [tagged_append _ typed, untagged]⟩

section Advance

variable {made : List Word} (calm : Calm regs s i.snkFab) (counts : Counts s heard.words)
  (word : i.snkFab.dvalid = true) (goes : table regs heard.words = some made)

include calm counts word goes

omit comes in
theorem table_advance :
    table regs (heard.words ++ [fabWord i.snkFab]) = some (made ++ [s.passedWord regs i.snkFab]) := by
  unfold passedWord usesPvid
  rcases counts.word word with ⟨at6, at7, early, plain⟩ | ⟨at6, at7, six⟩ | ⟨at6, at7, seven, tag, same⟩
  · rw [at7]
    exact table_snoc early plain goes
  · obtain rfl : heard.words = made := by simpa [table_early (le_of_eq six)] using goes
    rw [at7]
    cases tag : i.snkFab.data == 0x8100 with
    | true => exact table_plain six tag
    | false =>
        have inserts := calm.inserts
        have refuses := calm.refuses
        simp only [insertsAt, refusesAt, untaggedAt, at6, bne, tag, Bool.not_false, Bool.true_and,
          beq_eq_false_iff_ne]
          at inserts refuses
        rw [table_untagged six tag, if_neg inserts, if_neg refuses]
        rfl
  · obtain rfl : heard.words = made := by simpa [table_tag tag seven] using goes
    have admits : (fVlanDecision (combTagType true (fabWord i.snkFab).data) regs.qmode).admits = true := by
      have here := calm.admits at7
      rwa [decisionAt, same] at here
    rw [table_tci seven tag, at7, decisionAt, same, Bool.true_and]
    simp only [admits, if_true]
    rfl

omit comes calm in
theorem tells_advance {v : VlanUnit} (tells : Tells s made)
    (vid : v.vid = if s.atVid i.snkFab then (s.passedWord regs i.snkFab).data.extractLsb' 0 12 else s.vid) :
    Tells v (made ++ [s.passedWord regs i.snkFab]) := by
  intro named among
  rcases counts.word word with ⟨at6, at7, early, plain⟩ | ⟨at6, at7, six⟩ | ⟨at6, at7, seven, tag, same⟩
  · rw [tagVid_snoc (made_plain plain goes)] at among
    rw [vid, at7]
    exact tells named among
  · obtain rfl : heard.words = made := by simpa [table_early (le_of_eq six)] using goes
    rw [tagVid_snoc (by omega)] at among
    rw [vid, at7]
    exact tells named among
  · obtain rfl : heard.words = made := by simpa [table_tag tag seven] using goes
    rw [tagVid_tci seven tag] at among
    rw [vid, at7, ← Option.some.inj among]
    rfl

end Advance

section Word

variable (live : Live s heard shown) (counts : Counts s heard.words)
  (goes : table regs heard.words = some (out s shown))
  (tells : Tells s (out s shown)) (eof : i.snkFab.eof = false)

include live counts goes tells eof

omit comes in
theorem gap_step (gap : i.snkFab.dvalid = false) :
    Phase regs (s.data regs i.snkFab i.srcDreq) { words := heard.words, endings := [] } (shown.show s.src)
      (s.snkDreq i.srcDreq) := by
  have at6 : s.atEthertype i.snkFab = false := by simp [atEthertype, gap]
  have at7 : s.atVid i.snkFab = false := by simp [atVid, gap]
  have calm : Calm regs s i.snkFab :=
    ⟨fun _ => at7, by simp [insertsAt, untaggedAt, at6], by simp [refusesAt, untaggedAt, at6], by simp [at7], eof⟩
  obtain ⟨state, eof', error', dvalid, -, hdr, tag, vid⟩ := @data_pass regs s i.snkFab i.srcDreq calm (by simp [gap])
  have coming : (shown.show s.src).endings = [] := by rw [endings_show live.2.2, live.2.1]
  rw [gap, if_neg (by simp)] at hdr
  rw [at6, if_neg (by simp)] at tag
  rw [at7, if_neg (by simp)] at vid
  have same := out_empty s shown _ (dvalid.trans gap)
  refine .data state ⟨rfl, coming, eof', error'⟩ ?_ (by rw [same, goes]) ?_
  · obtain ⟨k, place, counted⟩ := counts
    exact ⟨k, hdr.trans place, by rwa [tag]⟩
  · rw [same]
    intro named among
    rw [vid]
    exact tells named among

variable (word : i.snkFab.dvalid = true)

omit comes tells in
include word in
theorem insertTag_step (inserts : s.insertsAt regs i.snkFab = true) (dreq : i.srcDreq = true)
    (plain : i.snkFab.addr = cWrfData ∧ i.snkFab.bytesel = false) :
    Phase regs (s.data regs i.snkFab i.srcDreq) { words := heard.words ++ [fabWord i.snkFab], endings := [] }
      (shown.show s.src) (s.snkDreq i.srcDreq) := by
  have first := inserts
  simp only [insertsAt, untaggedAt, Bool.and_eq_true, bne_iff_ne, beq_iff_eq] at first
  obtain ⟨⟨at6, untagged⟩, access⟩ := first
  obtain ⟨at7, six⟩ : s.atVid i.snkFab = false ∧ heard.words.length = 6 := by
    rcases counts.word word with ⟨other, -⟩ | ⟨-, at7, six⟩ | ⟨other, -⟩
    · exact absurd at6 (by simp [other])
    · exact ⟨at7, six⟩
    · exact absurd at6 (by simp [other])
  have place : s.hdrOffset = oneHot 6 := by
    obtain ⟨k, place, ⟨rfl, -⟩ | ⟨-, typed, -⟩⟩ := counts
    · rw [place, six]
    · omega
  obtain ⟨state, eof', error', dvalid, shows, hdr, ethertype, mask, -⟩ := data_insert inserts at7 eof dreq
  have coming : (shown.show s.src).endings = [] := by rw [endings_show live.2.2, live.2.1]
  have front : heard.words = out s shown := by simpa [table_early (le_of_eq six)] using goes
  refine .insert state ⟨rfl, coming, eof', error'⟩ heard.words (fabWord i.snkFab) 7
    { access := access, front := six, untagged := by simpa [fabWord] using untagged, plain := plain, range := .inl rfl
      hdr := by rw [hdr, place, oneHot_next], ethertype := ethertype, whole := congrArg Word.bytesel shows
      mask := fun on => absurd on (by simp [mask]), asked := fun _ => ⟨rfl, dvalid⟩, words := rfl, out := ?_
      vid := fun other => absurd rfl other }
  rw [out_next, dvalid, if_pos rfl, shows, ← front]
  rfl

omit comes in
include word in
theorem refuse_step (refuses : s.refusesAt regs i.snkFab = true) :
    Phase regs (s.data regs i.snkFab i.srcDreq) { words := heard.words ++ [fabWord i.snkFab], endings := [] }
      (shown.show s.src) (s.snkDreq i.srcDreq) := by
  have first := refuses
  simp only [refusesAt, untaggedAt, Bool.and_eq_true, bne_iff_ne, beq_iff_eq] at first
  obtain ⟨⟨at6, untagged⟩, trunk⟩ := first
  obtain ⟨at7, six⟩ : s.atVid i.snkFab = false ∧ heard.words.length = 6 := by
    rcases counts.word word with ⟨other, -⟩ | ⟨-, at7, six⟩ | ⟨other, -⟩
    · exact absurd at6 (by simp [other])
    · exact ⟨at7, six⟩
    · exact absurd at6 (by simp [other])
  obtain ⟨state, eof', error', dvalid, vid⟩ := @data_refuse regs s i.snkFab i.srcDreq refuses at7 eof
  have coming : (shown.show s.src).endings = [] := by rw [endings_show live.2.2, live.2.1]
  have front : heard.words = out s shown := by simpa [table_early (le_of_eq six)] using goes
  have same := out_empty s shown _ dvalid
  refine .discard state coming ⟨eof', error'⟩ (.inr ⟨?_, ?_, by simp⟩) ?_
  · rw [table_untagged six (by simpa [fabWord] using untagged), if_neg (by simp [trunk]), if_pos trunk]
  · rw [same, ← front]
    exact List.prefix_append _ _
  · rw [same]
    intro named among
    rw [vid]
    exact tells named among

omit comes tells in
include word in
theorem refuseTag_step (at7 : s.atVid i.snkFab = true) (refused : (s.decisionAt regs i.snkFab).admits = false)
    (fresh : i.srcDreq = false → s.vSrcFab.dvalid = false) :
    Phase regs (s.data regs i.snkFab i.srcDreq) { words := heard.words ++ [fabWord i.snkFab], endings := [] }
      (shown.show s.src) (s.snkDreq i.srcDreq) := by
  obtain ⟨at6, seven, tag, same⟩ : s.atEthertype i.snkFab = false ∧ heard.words.length = 7 ∧
      tagged heard.words = true ∧ s.isTagged = true := by
    rcases counts.word word with ⟨-, other, -⟩ | ⟨-, other, -⟩ | ⟨at6, -, rest⟩
    · exact absurd at7 (by simp [other])
    · exact absurd at7 (by simp [other])
    · exact ⟨at6, rest⟩
  have decision : s.decisionAt regs i.snkFab = fVlanDecision (combTagType true i.snkFab.data) regs.qmode := by
    rw [decisionAt, same]
  have own : (s.decisionAt regs i.snkFab).usePvid = false := by
    rw [← Bool.not_eq_true]
    intro use
    rw [decision] at use refused
    rw [(decision_pvid _ _ (combTagType_tagged _) use).2.2] at refused
    exact absurd refused (by simp)
  obtain ⟨state, eof', error', dvalid, shows⟩ := data_refuseTag at7 at6 eof refused own fresh
  have coming : (shown.show s.src).endings = [] := by rw [endings_show live.2.2, live.2.1]
  have front : heard.words = out s shown := by simpa [table_tag tag seven] using goes
  have none : table regs (heard.words ++ [fabWord i.snkFab]) = none := by
    rw [decision] at refused
    have refused' : (fVlanDecision (combTagType true (fabWord i.snkFab).data) regs.qmode).admits = false := refused
    rw [table_tci seven tag]
    simp only [refused', Bool.false_eq_true, if_false]
  cases dreq : i.srcDreq with
  | false =>
      rw [dreq] at dvalid state eof' error'
      have same := out_empty s shown _ dvalid
      refine .discard state coming ⟨eof', error'⟩ (.inr ⟨none, ?_, by simp⟩) ?_
      · rw [same, ← front]
        exact List.prefix_append _ _
      · rw [same, ← front, Tells, tagVid_short (le_of_eq seven)]
        simp
  | true =>
      rw [dreq] at dvalid state eof' error' shows
      obtain ⟨shown', vid⟩ := shows rfl
      have all : out (s.data regs i.snkFab true) (shown.show s.src) = heard.words ++ [fabWord i.snkFab] := by
        rw [out_next, dvalid, if_pos rfl, shown', ← front]
      refine .discard state coming ⟨eof', error'⟩ (.inr ⟨none, ?_, by simp⟩) ?_
      · rw [all]
      · rw [all, Tells, tagVid_tci seven tag]
        intro named among
        rw [vid]
        exact Option.some.inj among

omit comes eof in
include word in
theorem calm_step (calm : Calm regs s i.snkFab) (fresh : i.srcDreq = false → s.vSrcFab.dvalid = false)
    (own : i.srcDreq = false → s.atVid i.snkFab = true → s.usesPvid regs i.snkFab = true) :
    Phase regs (s.data regs i.snkFab i.srcDreq) { words := heard.words ++ [fabWord i.snkFab], endings := [] }
      (shown.show s.src) (s.snkDreq i.srcDreq) := by
  have coming : (shown.show s.src).endings = [] := by rw [endings_show live.2.2, live.2.1]
  have goes' := table_advance calm counts word goes
  cases dreq : i.srcDreq with
  | true =>
      obtain ⟨state, eof', error', dvalid, shows, hdr, tag, vid⟩ := @data_pass regs s i.snkFab true calm (by simp)
      rw [word, if_pos rfl] at hdr
      have all : out (s.data regs i.snkFab true) (shown.show s.src) = out s shown ++ [s.passedWord regs i.snkFab] :=
        by
        rw [out_next, dvalid, if_pos word, shows word]
      refine .data state ⟨rfl, coming, eof', error'⟩ (counts.next word hdr tag) ?_ ?_
      · rw [all]
        exact goes'
      · rw [all]
        exact tells_advance counts word goes tells vid
  | false =>
      obtain ⟨state, eof', error', dvalid, kept, shows, hdr, tag, named, unnamed⟩ :=
        @data_keep regs s i.snkFab false calm word rfl (fresh dreq)
      have vid : (s.data regs i.snkFab false).vid =
          if s.atVid i.snkFab then (s.passedWord regs i.snkFab).data.extractLsb' 0 12 else s.vid := by
        cases at7 : s.atVid i.snkFab with
        | false => exact unnamed at7
        | true =>
            have use := own dreq at7
            rw [if_pos rfl, named use, passedWord, use, if_pos rfl]
            exact (low_vid _ _).symm
      have same := out_empty s shown _ dvalid
      refine .flush state ⟨rfl, coming, eof', error'⟩ (by simp [snkDreq]) kept (counts.next word hdr tag) ?_ ?_
      · rw [same, shows]
        exact goes'
      · rw [same, shows]
        exact tells_advance counts word goes tells vid

omit comes in
include word in
theorem word_step (keeps : i.srcDreq = false → s.keeps regs i.snkFab = true)
    (header : s.insertsAt regs i.snkFab = true → i.snkFab.addr = cWrfData ∧ i.snkFab.bytesel = false) :
    Phase regs (s.data regs i.snkFab i.srcDreq) { words := heard.words ++ [fabWord i.snkFab], endings := [] }
      (shown.show s.src) (s.snkDreq i.srcDreq) := by
  have still : i.srcDreq = false → (s.refusesAt regs i.snkFab = false → s.vSrcFab.dvalid = false) ∧
      s.insertsAt regs i.snkFab = false ∧ (s.atVid i.snkFab = true → (s.decisionAt regs i.snkFab).admits = true →
        (s.decisionAt regs i.snkFab).usePvid = true) := by
    intro stall
    have kept := keeps stall
    simp only [VlanUnit.keeps, Bool.and_eq_true, Bool.or_eq_true, Bool.not_eq_true', Bool.and_eq_false_iff] at kept
    refine ⟨fun plain => ?_, kept.1.2, fun at7 admits => ?_⟩
    · rcases kept.1.1 with fresh | refuses
      · exact fresh
      · exact absurd refuses (by simp [plain])
    · rcases kept.2 with (other | other) | use
      · exact absurd at7 (by simp [other])
      · exact absurd admits (by simp [other])
      · simpa using use
  cases inserts : s.insertsAt regs i.snkFab with
  | true =>
      have dreq : i.srcDreq = true := by
        rw [← Bool.not_eq_false]
        intro stall
        exact absurd inserts (by simp [(still stall).2.1])
      exact insertTag_step live counts goes eof word inserts dreq (header inserts)
  | false =>
      cases refuses : s.refusesAt regs i.snkFab with
      | true => exact refuse_step live counts goes tells eof word refuses
      | false =>
          have fresh : i.srcDreq = false → s.vSrcFab.dvalid = false := fun stall => (still stall).1 refuses
          by_cases refused : s.atVid i.snkFab = true ∧ (s.decisionAt regs i.snkFab).admits = false
          · exact refuseTag_step live counts goes eof word refused.1 refused.2 fresh
          · have admits : s.atVid i.snkFab = true → (s.decisionAt regs i.snkFab).admits = true := by
              intro at7
              rw [← Bool.not_eq_false]
              exact fun other => refused ⟨at7, other⟩
            have apart : s.atEthertype i.snkFab = true → s.atVid i.snkFab = false := by
              intro at6
              rcases counts.word word with ⟨other, -⟩ | ⟨-, at7, -⟩ | ⟨other, -⟩
              · exact absurd at6 (by simp [other])
              · exact at7
              · exact absurd at6 (by simp [other])
            refine calm_step live counts goes tells word ⟨apart, inserts, refuses, admits, eof⟩ fresh ?_
            intro stall at7
            rw [usesPvid, at7, (still stall).2.2 at7 (admits at7)]
            rfl

end Word

omit comes in
include spares in
theorem data_step (state : s.state = .data) (live : Live s heard shown) (counts : Counts s heard.words)
    (goes : table regs heard.words = some (out s shown)) (tells : Tells s (out s shown)) :
    Phase regs (s.tagUntag regs i.snkFab i.srcDreq) (heard.hear i.snkFab) (shown.show s.src)
      (s.snkDreq i.srcDreq) := by
  obtain ⟨open', coming, flags⟩ := live
  have coming' : (shown.show s.src).endings = [] := by rw [endings_show flags, coming]
  cases error : i.snkFab.error with
  | true =>
      have failed : s.tagUntag regs i.snkFab i.srcDreq = { s with state := .discardFrame } := by
        simp [tagUntag, error]
      have same := out_empty s shown { s with state := .discardFrame } (spares.error error).1
      rw [failed]
      refine .discard rfl coming' flags (.inl ⟨?_, ?_⟩) ?_
      · simp [Frame.hear, error, open']
      · rw [same]
        simpa [Frame.hear, error] using goes
      · rw [same]
        exact tells
  | false =>
      have next : s.tagUntag regs i.snkFab i.srcDreq = s.data regs i.snkFab i.srcDreq := by
        simp [tagUntag, error, state]
      rw [next]
      cases eof : i.snkFab.eof with
      | true =>
          have alone := spares.alone eof error
          obtain ⟨state', eof', error', empty, vid⟩ := @data_eof regs s i.snkFab i.srcDreq eof alone
          have words : (heard.hear i.snkFab).words = heard.words := by simp [Frame.hear, error, alone]
          have ended : (heard.hear i.snkFab).endings = [.eof] := by simp [Frame.hear, error, eof, open']
          have same := out_empty s shown _ empty
          have tells' : Tells (s.data regs i.snkFab i.srcDreq) (out s shown) := by
            intro named among
            rw [vid]
            exact tells named among
          cases dreq : i.srcDreq with
          | true =>
              rw [dreq] at state' eof' error' empty same tells'
              refine .closing state' coming' empty (.inl ⟨eof', error', ended, ?_⟩) ?_
              · rw [words, same, goes]
              · rw [same]
                exact tells'
          | false =>
              rw [dreq] at state' eof' error' empty same tells'
              refine .finish state' ended coming' ⟨eof', error'⟩ empty ?_ ?_
              · rw [words, same, goes]
              · rw [same]
                exact tells'
      | false =>
          have arrived : heard.hear i.snkFab =
              { words := heard.words ++ if i.snkFab.dvalid then [fabWord i.snkFab] else [], endings := [] } := by
            simp [Frame.hear, error, eof, open']
          rw [arrived]
          cases word : i.snkFab.dvalid with
          | false =>
              rw [if_neg (by simp), List.append_nil]
              exact gap_step ⟨open', coming, flags⟩ counts goes tells eof word
          | true =>
              rw [if_pos rfl]
              exact word_step ⟨open', coming, flags⟩ counts goes tells eof word (spares.word state error word)
                (spares.header state error)

end Cycle

theorem step_core (regs : VlanRegs) (s : VlanUnit) (snk : InternalFabric) (srcDreq : Bool) : ∃ done tclass,
    s.step regs snk srcDreq = { s.tagUntag regs snk srcDreq with tagDone := done, tclass := tclass } := by
  unfold VlanUnit.step
  split_ifs
  · exact ⟨_, _, rfl⟩
  · exact ⟨_, _, rfl⟩
  · exact ⟨_, _, rfl⟩

theorem Phase.step {asked : Bool} {i : In} (phase : Phase regs s heard shown asked)
    (comes : Comes asked heard i.snkFab) (spares : Spares regs s i) :
    Phase regs (s.step regs i.snkFab i.srcDreq) (heard.hear i.snkFab) (shown.show s.src) (s.snkDreq i.srcDreq) := by
  obtain ⟨done, tclass, core⟩ := step_core regs s i.snkFab i.srcDreq
  rw [core]
  refine Phase.recast ?_ done tclass
  cases phase with
  | data state live counts goes tells => exact data_step spares state live counts goes tells
  | flush state live idle kept counts goes tells => exact flush_step comes state live idle kept counts goes tells
  | insert state live header w j inserts => exact insert_step comes spares state live header w j inserts
  | finish state ended coming flags empty goes tells => exact finish_step comes state ended coming flags empty goes tells
  | discard state coming flags fails tells => exact discard_step comes spares state coming flags fails tells
  | closing state coming empty flags tells => exact closing_step comes spares state coming empty flags
  | closed state ended empty flags right =>
      have same : shown.show s.src = shown := by simp [Frame.show, empty, flags.1, flags.2]
      refine Phase.closed_step state empty comes spares ?_
      rw [same]
      exact right

/-- Without `src_dreq_i` no word is shown next. -/
theorem stall_src {asked : Bool} {i : In} (phase : Phase regs s heard shown asked) (spares : Spares regs s i)
    (stall : i.srcDreq = false) : (s.step regs i.snkFab i.srcDreq).src.dvalid = false := by
  obtain ⟨done, tclass, core⟩ := step_core regs s i.snkFab i.srcDreq
  have same : (s.step regs i.snkFab i.srcDreq).src = (s.tagUntag regs i.snkFab i.srcDreq).src := by rw [core]
  rw [same, stall]
  cases error : i.snkFab.error with
  | true => simpa [tagUntag, error] using (spares.error error).1
  | false =>
      cases phase with
      | data state =>
          have next : s.tagUntag regs i.snkFab false = s.data regs i.snkFab false := by simp [tagUntag, error, state]
          rw [next]
          cases word : i.snkFab.dvalid with
          | false => exact gap_src word
          | true =>
              refine keeps_src word (spares.word state error word stall) ?_
              rw [← Bool.not_eq_true]
              intro eof
              exact absurd (spares.alone eof error) (by simp [word])
      | flush state => simp [tagUntag, error, state]
      | insert state => simp [tagUntag, error, state, insertTag]
      | finish state _ _ _ empty => simpa [tagUntag, error, state] using empty
      | discard state => simpa [tagUntag, error, state] using spares.discard state stall
      | closing state _ empty => simpa [tagUntag, error, state] using empty
      | closed state _ empty => simpa [tagUntag, error, state] using empty

end Phases

end WrCores.Endpoint.VlanUnit
