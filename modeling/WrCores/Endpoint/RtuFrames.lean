import WrCores.Endpoint.RtuHeader

/-!
The frames at the input of the VLAN unit and what each of them owes the RTU. A request is due once the
header is complete: seven words, nine when the frame is tagged, and where the port inserts a tag two
cycles after the seventh word. Then, what a cycle does to the VLAN unit and to the header extraction.
-/

namespace WrCores.Endpoint.RxHead

open Clocked VlanUnit

/-- A frame as it came in. `settled` counts the cycles after its seventh word. -/
structure Frame where
  words : List (BitVec 16) := []
  accepted : Bool
  settled : Nat := 0
  ended : Bool := false
  failed : Bool := false
  deriving DecidableEq, Repr

namespace Frame

def tagged (f : Frame) : Bool := f.words.getD 6 0 == 0x8100

/-- The words of the header are there. -/
def headed (f : Frame) : Bool := if f.tagged then 9 ≤ f.words.length else 7 ≤ f.words.length

def decision (regs : VlanRegs) (f : Frame) : VlanDecision :=
  fVlanDecision (combTagType true (f.words.getD 7 0)) regs.qmode

def complete (regs : VlanRegs) (f : Frame) : Bool :=
  if f.tagged then 9 ≤ f.words.length && (f.decision regs).admits
  else
    match regs.qmode with
    | .access => 2 ≤ f.settled
    | .trunk => false
    | _ => 7 ≤ f.words.length

def vid (regs : VlanRegs) (f : Frame) : BitVec 12 :=
  if f.tagged then
    if (f.decision regs).usePvid then regs.pvid else (f.words.getD 7 0).extractLsb' 0 12
  else if regs.qmode == .access then regs.pvid else 0

def prio (regs : VlanRegs) (f : Frame) : BitVec 3 :=
  if f.tagged then
    mapPrio regs (if regs.fixPrio || (f.decision regs).useFixedPrio then regs.prioVal
      else (f.words.getD 7 0).extractLsb' 13 3)
  else if regs.qmode == .access then mapPrio regs regs.prioVal else 0

def hasTag (regs : VlanRegs) (f : Frame) : Bool := f.tagged || regs.qmode == .access

/-- The addresses are the frame's own; it has a tag of its own or the port's. -/
def request (regs : VlanRegs) (f : Frame) : RtuRequest where
  dmac := f.words.getD 0 0 ++ f.words.getD 1 0 ++ f.words.getD 2 0
  smac := f.words.getD 3 0 ++ f.words.getD 4 0 ++ f.words.getD 5 0
  vid := f.vid regs
  hasVid := f.hasTag regs
  prio := f.prio regs
  hasPrio := f.hasTag regs

def expected (regs : VlanRegs) (f : Frame) : List RtuEvent :=
  if f.accepted && f.complete regs then .request (f.request regs) :: if f.failed then [.abort] else []
  else []

def see (f : Frame) (snk : InternalFabric) : Frame :=
  if f.ended then f
  else if snk.error then { f with ended := true, failed := true }
  else if snk.eof then { f with ended := true }
  else
    { f with
      words := if snk.dvalid then f.words ++ [snk.data] else f.words
      settled := if 7 ≤ f.words.length then f.settled + 1 else f.settled }

end Frame

/-- The frames, the newest first, and the pulses seen. -/
structure Observer where
  frames : List Frame := []
  log : List RtuEvent := []
  deriving DecidableEq, Repr

def due (regs : VlanRegs) (frames : List Frame) : List RtuEvent := frames.reverse.flatMap (Frame.expected regs)

def observe (s : RxHead) (o : Observer) (i : RxHeadIn) : Observer where
  frames :=
    if i.snkFab.sof then { accepted := s.buffer.accepts (s.bufferIn i) } :: o.frames
    else
      match o.frames with
      | [] => []
      | f :: rest => f.see i.snkFab :: rest
  log := o.log ++ s.pulses i

def watch (regs : VlanRegs) (so : RxHead × Observer) (i : RxHeadIn) : RxHead × Observer :=
  (so.1.step regs i, so.1.observe so.2 i)

/-- A frame starts by itself and behind the end of the one before, and not where the buffer drops it
although neither the RTU nor the buffer is full; it ends by itself, with its header complete; an error
does not come while the one before is on its way. -/
structure Fits (so : RxHead × Observer) (i : RxHeadIn) : Prop where
  start : i.snkFab.sof = true → so.1.vlan.state = .waitFrame ∧
    so.1.vlan.src.eof = false ∧ so.1.vlan.src.error = false ∧
    i.snkFab.error = false ∧ i.snkFab.eof = false ∧ i.snkFab.dvalid = false
  drop : i.snkFab.sof = true → i.rtuFull = false → so.1.buffer.qDrop = false → i.dropReq = false
  stop : i.snkFab.eof = true → i.snkFab.error = false → i.snkFab.dvalid = false ∧
    so.1.vlan.state ≠ .insertTag ∧ (so.1.vlan.state = .data → ∀ f ∈ so.2.frames.head?, f.headed = true)
  error : i.snkFab.error = true → so.1.vlan.state ≠ .discardFrame

instance (so : RxHead × Observer) (i : RxHeadIn) : Decidable (Fits so i) :=
  decidable_of_iff
    ((i.snkFab.sof = true → so.1.vlan.state = .waitFrame ∧ so.1.vlan.src.eof = false ∧
        so.1.vlan.src.error = false ∧ i.snkFab.error = false ∧ i.snkFab.eof = false ∧ i.snkFab.dvalid = false) ∧
      (i.snkFab.sof = true → i.rtuFull = false → so.1.buffer.qDrop = false → i.dropReq = false) ∧
      (i.snkFab.eof = true → i.snkFab.error = false → i.snkFab.dvalid = false ∧
        so.1.vlan.state ≠ .insertTag ∧ (so.1.vlan.state = .data → ∀ f ∈ so.2.frames.head?, f.headed = true)) ∧
      (i.snkFab.error = true → so.1.vlan.state ≠ .discardFrame))
    ⟨fun ⟨start, drop, stop, error⟩ => ⟨start, drop, stop, error⟩,
      fun fits => ⟨fits.start, fits.drop, fits.stop, fits.error⟩⟩

/-! ### The shift registers -/

def oneHot (n : Nat) : BitVec 12 := 1#12 <<< n

theorem oneHot_next (n : Nat) : oneHot n <<< 1 = oneHot (n + 1) := by
  rw [oneHot, oneHot, BitVec.shiftLeft_add]

theorem oneHot_bit (n k : Nat) (inside : k < 12) : (oneHot n).getLsbD k = decide (k = n) := by
  simp only [oneHot, BitVec.getLsbD_shiftLeft, BitVec.getLsbD_one]
  rw [Bool.eq_iff_iff]
  simp
  omega

/-! ### The VLAN unit with a sink that always asks -/

section Vlan

variable (regs : VlanRegs) (s : VlanUnit) (snk : InternalFabric)

theorem step_error (error : snk.error = true) (sof : snk.sof = false) :
    s.step regs snk true = { s with
      state := .discardFrame
      tagDone := s.tagDone || s.hdrOffset.getLsbD 9
      tclass := if s.hdrOffset.getLsbD 9 then mapPrio regs s.prioInt else s.tclass } := by
  cases nine : s.hdrOffset.getLsbD 9 <;> simp [-BitVec.getLsbD_eq_getElem, VlanUnit.step, tagUntag, error, sof, nine]

theorem step_discard (state : s.state = .discardFrame) (error : snk.error = false) (sof : snk.sof = false) :
    s.step regs snk true = { s with
      src := { s.src with error := true, dvalid := false }, state := .waitFrame
      tagDone := s.tagDone || s.hdrOffset.getLsbD 9
      tclass := if s.hdrOffset.getLsbD 9 then mapPrio regs s.prioInt else s.tclass } := by
  cases nine : s.hdrOffset.getLsbD 9 <;> simp [-BitVec.getLsbD_eq_getElem, VlanUnit.step, tagUntag, error, sof,
    nine, state]

theorem step_start (state : s.state = .waitFrame) (error : snk.error = false) (sof : snk.sof = true) :
    s.step regs snk true = { s with
      dreqMask := true, src := { s.src with eof := false, error := false }, isTagged := false
      isTagInserted := false, prioInt := regs.prioVal, vid := 0, hdrOffset := 1, state := .data
      tagDone := false, tclass := 0 } := by
  simp [-BitVec.getLsbD_eq_getElem, VlanUnit.step, tagUntag, error, sof, state]

theorem step_wait (state : s.state = .waitFrame) (error : snk.error = false) (sof : snk.sof = false) :
    (s.step regs snk true).state = .waitFrame ∧ (s.step regs snk true).src =
      { s.src with eof := false, error := false } := by
  cases nine : s.hdrOffset.getLsbD 9 <;> simp [-BitVec.getLsbD_eq_getElem, VlanUnit.step, tagUntag, error, sof,
    nine, state]

/-- The output of the unit after a word, or after a gap. -/
def passed : InternalFabric :=
  { s.src with
    eof := false, error := false, dvalid := snk.dvalid, addr := snk.addr, data := snk.data, bytesel := snk.bytesel }

theorem step_word (state : s.state = .data) (error : snk.error = false) (sof : snk.sof = false)
    (eof : snk.eof = false) (ethertype : s.atEthertype snk = false) (vid : s.atVid snk = false) :
    s.step regs snk true = { s with
      dreqMask := true, vSrcFab := (s.step regs snk true).vSrcFab, storedFab := s.vStoredFab
      src := passed s snk, hdrOffset := if snk.dvalid then s.hdrOffset <<< 1 else s.hdrOffset
      tagDone := s.tagDone || s.hdrOffset.getLsbD 9
      tclass := if s.hdrOffset.getLsbD 9 then mapPrio regs s.prioInt else s.tclass } := by
  cases nine : s.hdrOffset.getLsbD 9 <;>
    simp [-BitVec.getLsbD_eq_getElem, VlanUnit.step, tagUntag, VlanUnit.data, takeWord, passOn, passed, error, sof,
      eof, nine, state,
      ethertype, vid]

theorem step_eof (state : s.state = .data) (error : snk.error = false) (sof : snk.sof = false)
    (eof : snk.eof = true) (gap : snk.dvalid = false) :
    s.step regs snk true = { s with
      dreqMask := true, vSrcFab := (s.step regs snk true).vSrcFab, storedFab := s.vStoredFab
      src := { passed s snk with eof := true }, state := .waitFrame
      tagDone := s.tagDone || s.hdrOffset.getLsbD 9
      tclass := if s.hdrOffset.getLsbD 9 then mapPrio regs s.prioInt else s.tclass } := by
  cases nine : s.hdrOffset.getLsbD 9 <;>
    simp [-BitVec.getLsbD_eq_getElem, VlanUnit.step, tagUntag, VlanUnit.data, takeWord, seeEof, passOn, passed,
      atEthertype, atVid, error, sof,
      eof, gap, nine, state]

theorem step_tag (state : s.state = .data) (error : snk.error = false) (sof : snk.sof = false)
    (eof : snk.eof = false) (hdr : s.hdrOffset = oneHot 6) (word : snk.dvalid = true) (tag : snk.data = 0x8100#16) :
    s.step regs snk true = { s with
      dreqMask := true, vSrcFab := (s.step regs snk true).vSrcFab, storedFab := s.vStoredFab
      storedEthertype := snk.data, isTagged := true, src := passed s snk, hdrOffset := oneHot 7 } := by
  have six := oneHot_bit 6 6 (by omega)
  have seven := oneHot_bit 6 7 (by omega)
  have nine := oneHot_bit 6 9 (by omega)
  have next := oneHot_next 6
  simp [-BitVec.getLsbD_eq_getElem, VlanUnit.step, tagUntag, VlanUnit.data, takeWord, seeEthertype, passOn, passed,
    atEthertype, atVid, error, sof, eof, state, hdr, word, tag, six, seven, nine, next]

theorem step_untagged (state : s.state = .data) (error : snk.error = false) (sof : snk.sof = false)
    (eof : snk.eof = false) (hdr : s.hdrOffset = oneHot 6) (word : snk.dvalid = true) (tag : snk.data ≠ 0x8100#16)
    (plain : regs.qmode ≠ .access ∧ regs.qmode ≠ .trunk) :
    s.step regs snk true = { s with
      dreqMask := true, vSrcFab := (s.step regs snk true).vSrcFab, storedFab := s.vStoredFab
      storedEthertype := snk.data, isTagged := false, src := passed s snk, hdrOffset := oneHot 7 } := by
  have six := oneHot_bit 6 6 (by omega)
  have seven := oneHot_bit 6 7 (by omega)
  have nine := oneHot_bit 6 9 (by omega)
  have next := oneHot_next 6
  cases qmode : regs.qmode <;> simp_all [-BitVec.getLsbD_eq_getElem, VlanUnit.step, tagUntag, VlanUnit.data, takeWord,
    seeEthertype, passOn, passed, atEthertype, atVid]

theorem step_trunk (state : s.state = .data) (error : snk.error = false) (sof : snk.sof = false)
    (eof : snk.eof = false) (hdr : s.hdrOffset = oneHot 6) (word : snk.dvalid = true) (tag : snk.data ≠ 0x8100#16)
    (trunk : regs.qmode = .trunk) :
    s.step regs snk true = { s with
      dreqMask := true, vSrcFab := (s.step regs snk true).vSrcFab, storedFab := s.vStoredFab
      storedEthertype := snk.data, isTagged := false, src := { passed s snk with dvalid := false }
      hdrOffset := oneHot 7, state := .discardFrame } := by
  have six := oneHot_bit 6 6 (by omega)
  have seven := oneHot_bit 6 7 (by omega)
  have nine := oneHot_bit 6 9 (by omega)
  have next := oneHot_next 6
  simp [-BitVec.getLsbD_eq_getElem, VlanUnit.step, tagUntag, VlanUnit.data, takeWord, seeEthertype, passOn, passed,
    atEthertype, atVid, error, sof, eof, state, hdr, word, tag, six, seven, nine, next, trunk]

theorem step_access (state : s.state = .data) (error : snk.error = false) (sof : snk.sof = false)
    (eof : snk.eof = false) (hdr : s.hdrOffset = oneHot 6) (word : snk.dvalid = true) (tag : snk.data ≠ 0x8100#16)
    (access : regs.qmode = .access) :
    s.step regs snk true = { s with
      dreqMask := false, vSrcFab := (s.step regs snk true).vSrcFab, storedFab := s.vStoredFab
      storedEthertype := snk.data, isTagged := false, isTagInserted := true, prioInt := regs.prioVal
      src := { s.src with
        eof := false, dvalid := true, error := false, addr := cWrfData, data := 0x8100, bytesel := false }
      hdrOffset := oneHot 7, state := .insertTag } := by
  have six := oneHot_bit 6 6 (by omega)
  have seven := oneHot_bit 6 7 (by omega)
  have nine := oneHot_bit 6 9 (by omega)
  have next := oneHot_next 6
  simp [-BitVec.getLsbD_eq_getElem, VlanUnit.step, tagUntag, VlanUnit.data, takeWord, seeEthertype, passOn,
    atEthertype, atVid, error, sof, eof, state, hdr, word, tag, six, seven, nine, next, access]

/-- The fields of the tag that the unit keeps. -/
def tagVid (data : BitVec 16) : BitVec 12 :=
  if (fVlanDecision (combTagType true data) regs.qmode).usePvid then regs.pvid else data.extractLsb' 0 12

def tagPrio (data : BitVec 16) : BitVec 3 :=
  if regs.fixPrio || (fVlanDecision (combTagType true data) regs.qmode).useFixedPrio then regs.prioVal
  else data.extractLsb' 13 3

theorem low_part (high : BitVec 4) (low : BitVec 12) : BitVec.extractLsb' 0 12 (high ++ low : BitVec 16) = low :=
  BitVec.extractLsb'_append_eq_right

theorem step_vid (state : s.state = .data) (error : snk.error = false) (sof : snk.sof = false)
    (eof : snk.eof = false) (hdr : s.hdrOffset = oneHot 7) (word : snk.dvalid = true) (tagged : s.isTagged = true) :
    (s.step regs snk true).state = (if (fVlanDecision (combTagType true snk.data) regs.qmode).admits then .data
      else .discardFrame) ∧
    (s.step regs snk true).hdrOffset = oneHot 8 ∧ (s.step regs snk true).vid = tagVid regs snk.data ∧
    (s.step regs snk true).prioInt = tagPrio regs snk.data ∧ (s.step regs snk true).isTagged = true ∧
    (s.step regs snk true).isTagInserted = s.isTagInserted ∧ (s.step regs snk true).tagDone = s.tagDone ∧
    (s.step regs snk true).src.eof = false ∧ (s.step regs snk true).src.error = false := by
  have six := oneHot_bit 7 6 (by omega)
  have seven := oneHot_bit 7 7 (by omega)
  have nine := oneHot_bit 7 9 (by omega)
  have next := oneHot_next 7
  cases admits : (fVlanDecision (combTagType true snk.data) regs.qmode).admits <;>
  cases pvid : (fVlanDecision (combTagType true snk.data) regs.qmode).usePvid <;>
    simp [-BitVec.getLsbD_eq_getElem, VlanUnit.step, tagUntag, VlanUnit.data, takeWord, seeVid, passOn,
      atEthertype, atVid, error, sof, eof, state, hdr, word, tagged, six, seven, nine, next, admits, pvid, tagVid,
        tagPrio,
      withVid, low_part]

theorem step_insert {j : Nat} (range : j = 7 ∨ j = 8 ∨ j = 9) (state : s.state = .insertTag)
    (error : snk.error = false) (sof : snk.sof = false) (hdr : s.hdrOffset = oneHot j) :
    (s.step regs snk true).state = (if j = 9 then .data else .insertTag) ∧
    (s.step regs snk true).hdrOffset = oneHot (j + 1) ∧
    (s.step regs snk true).vid = (if j = 7 then regs.pvid else s.vid) ∧
    (s.step regs snk true).prioInt = s.prioInt ∧ (s.step regs snk true).isTagged = s.isTagged ∧
    (s.step regs snk true).isTagInserted = s.isTagInserted ∧
    (s.step regs snk true).tagDone = (s.tagDone || decide (j = 9)) ∧
    (s.step regs snk true).tclass = (if j = 9 then mapPrio regs s.prioInt else s.tclass) ∧
    (s.step regs snk true).src.eof = s.src.eof ∧ (s.step regs snk true).src.error = s.src.error := by
  have seven := oneHot_bit j 7 (by omega)
  have eight := oneHot_bit j 8 (by omega)
  have nine := oneHot_bit j 9 (by omega)
  have next := oneHot_next j
  rcases range with rfl | rfl | rfl <;>
    simp [-BitVec.getLsbD_eq_getElem, VlanUnit.step, tagUntag, VlanUnit.insertTag, error, sof, state, hdr, seven,
      eight,
      nine, next]

end Vlan

/-! ### What a frame owes -/

namespace Frame

variable {regs : VlanRegs} {f : Frame} (snk : InternalFabric)

@[simp] theorem see_accepted (f : Frame) (snk : InternalFabric) : (f.see snk).accepted = f.accepted := by
  unfold see
  repeat' split
  all_goals rfl

theorem see_word {k : Nat} (inside : k < f.words.length) : (f.see snk).words.getD k 0 = f.words.getD k 0 := by
  unfold see
  repeat' split
  all_goals simp [List.getD, List.getElem?_append_left inside]

theorem see_length (f : Frame) (snk : InternalFabric) : f.words.length ≤ (f.see snk).words.length := by
  unfold see
  repeat' split
  all_goals simp

theorem see_settled (f : Frame) (snk : InternalFabric) : f.settled ≤ (f.see snk).settled := by
  unfold see
  repeat' split
  all_goals simp

theorem see_tagged (typed : 7 ≤ f.words.length) : (f.see snk).tagged = f.tagged := by
  rw [tagged, tagged, see_word snk (by omega)]

theorem see_decision (named : 8 ≤ f.words.length) : (f.see snk).decision regs = f.decision regs := by
  rw [decision, decision, see_word snk (by omega)]

theorem headed_words (headed : f.headed = true) : 7 ≤ f.words.length ∧ (f.tagged = true → 9 ≤ f.words.length) := by
  cases tagged : f.tagged <;> simp [Frame.headed, tagged] at headed ⊢ <;> omega

/-- The request of a frame does not change once its header is there. -/
theorem see_request (typed : 7 ≤ f.words.length) (named : f.tagged = true → 8 ≤ f.words.length) :
    (f.see snk).request regs = f.request regs := by
  have tags := see_tagged snk typed
  have words (k : Nat) (inside : k < 7) : (f.see snk).words.getD k 0 = f.words.getD k 0 := see_word snk (by omega)
  have parts : (f.see snk).vid regs = f.vid regs ∧ (f.see snk).prio regs = f.prio regs := by
    cases tagged : f.tagged with
    | false => simp [vid, prio, tags, tagged]
    | true =>
        have enough := named tagged
        have seven : (f.see snk).words.getD 7 0 = f.words.getD 7 0 := see_word snk (by omega)
        constructor
        · simp only [vid, tags, tagged, see_decision snk enough, seven]
        · simp only [prio, tags, tagged, see_decision snk enough, seven]
  simp only [request, hasTag, tags, parts.1, parts.2, words 0 (by omega), words 1 (by omega), words 2 (by omega),
    words 3 (by omega), words 4 (by omega), words 5 (by omega)]

theorem complete_typed (complete : f.complete regs = true) (settled : 0 < f.settled → 7 ≤ f.words.length) :
    7 ≤ f.words.length ∧ (f.tagged = true → 9 ≤ f.words.length ∧ (f.decision regs).admits = true) := by
  cases tagged : f.tagged with
  | true =>
      simp only [Frame.complete, tagged, if_true, Bool.and_eq_true, decide_eq_true_eq] at complete
      exact ⟨by omega, fun _ => complete⟩
  | false =>
      refine ⟨?_, by simp⟩
      cases qmode : regs.qmode <;> simp_all [Frame.complete]
      omega

/-- A complete header stays so. -/
theorem see_complete (complete : f.complete regs = true) (settled : 0 < f.settled → 7 ≤ f.words.length) :
    (f.see snk).complete regs = true := by
  obtain ⟨typed, named⟩ := complete_typed complete settled
  have longer := see_length f snk
  have older := see_settled f snk
  cases tagged : f.tagged with
  | true =>
      obtain ⟨enough, admits⟩ := named tagged
      simp only [Frame.complete, see_tagged snk typed, tagged, if_true, see_decision snk
        (by omega : 8 ≤ f.words.length), admits,
        Bool.and_true, decide_eq_true_eq]
      omega
  | false =>
      simp only [Frame.complete, see_tagged snk typed, tagged, Bool.false_eq_true, if_false] at complete ⊢
      cases qmode : regs.qmode <;> simp_all <;> omega

/-- Nothing that comes will change what the frame owes: it is over, or the port does not let it in. -/
def Dead (regs : VlanRegs) (f : Frame) : Prop :=
  f.ended = true ∨
  (7 ≤ f.words.length ∧ f.tagged = false ∧ regs.qmode = .trunk) ∨
  (8 ≤ f.words.length ∧ f.tagged = true ∧ (f.decision regs).admits = false)

theorem Dead.complete (dead : Dead regs f) : (f.see snk).complete regs = f.complete regs := by
  rcases dead with ended | ⟨typed, untagged, trunk⟩ | ⟨named, tagged, refused⟩
  · simp [Frame.see, ended]
  · simp [Frame.complete, see_tagged snk typed, untagged, trunk]
  · simp [Frame.complete, see_tagged (f := f) snk (by omega), tagged, see_decision snk named, refused]

theorem Dead.see (dead : Dead regs f) : Dead regs (f.see snk) ∧ (f.see snk).expected regs = f.expected regs := by
  have longer := see_length f snk
  rcases dead with ended | ⟨typed, untagged, trunk⟩ | ⟨named, tagged, refused⟩
  · have same : f.see snk = f := by simp [Frame.see, ended]
    rw [same]
    exact ⟨.inl ended, rfl⟩
  · have tags := see_tagged snk typed
    rw [untagged] at tags
    refine ⟨.inr (.inl ⟨by omega, tags, trunk⟩), ?_⟩
    simp [expected, Frame.complete, tags, untagged, trunk]
  · have tags := see_tagged (f := f) snk (by omega)
    rw [tagged] at tags
    have decision : (f.see snk).decision regs = f.decision regs := see_decision snk named
    refine ⟨.inr (.inr ⟨by omega, tags, by rw [decision, refused]⟩), ?_⟩
    simp [expected, Frame.complete, tags, tagged, decision, refused]

end Frame

/-! ### The header extraction -/

/-- `m` words of the frame are taken down. -/
structure Gathered (s : RxHead) (f : Frame) (m : Nat) : Prop where
  hdr : s.rtu.hdrOffset = oneHot m
  macs : ∀ k : Fin 6, k.val < m → s.rtu.macs k = f.words.getD k 0
  packet : s.rtu.inPacket = f.accepted
  quiet : s.rtu.abort = false

/-- The seventh word stands on the output of the VLAN unit. -/
structure Shows (s : RxHead) (f : Frame) : Prop where
  gathered : Gathered s f 6
  dvalid : s.vlan.src.dvalid = true
  basic : s.rtu.validBasic = false
  header : f.accepted = true → s.rtu.inHeader = true

/-- The request is held until the VLAN unit is done. -/
structure Waits (s : RxHead) (f : Frame) : Prop where
  gathered : ∃ m, 7 ≤ m ∧ Gathered s f m
  basic : s.rtu.validBasic = f.accepted
  header : f.accepted = true → s.rtu.inHeader = true

/-- The request is over. -/
structure Done (s : RxHead) (f : Frame) : Prop where
  hdr : ∃ m, 7 ≤ m ∧ s.rtu.hdrOffset = oneHot m
  packet : s.rtu.inPacket = f.accepted
  quiet : s.rtu.abort = false
  basic : s.rtu.validBasic = false
  header : f.accepted = true → s.rtu.inHeader = false

/-- The VLAN unit lets a request through. -/
def ready (s : RxHead) : Bool := !s.vlan.isTaggedO || s.vlan.tagDone

/-- A cycle inside a frame, as the header extraction sees it. -/
structure Inside (s : RxHead) (i : RxHeadIn) : Prop where
  sof : i.snkFab.sof = false
  eof : s.vlan.src.eof = false
  error : s.vlan.src.error = false

variable {regs : VlanRegs} {s : RxHead} {i : RxHeadIn} {f : Frame}

theorem validOut_eq (s : RxHead) (i : RxHeadIn) : s.rtu.validOut (s.rtuIn i) = (s.rtu.validBasic && s.ready) := by
  cases tagged : s.vlan.isTaggedO <;> simp [RtuHeader.validOut, rtuIn, ready, tagged]

theorem step_hdr (inside : Inside s i) : (s.step regs i).rtu.hdrOffset =
    if s.vlan.src.dvalid then s.rtu.hdrOffset <<< 1 else s.rtu.hdrOffset := by
  simp [RxHead.step, RtuHeader.step, rtuIn, VlanUnit.srcFab, inside.sof]

theorem step_packet (inside : Inside s i) : (s.step regs i).rtu.inPacket = s.rtu.inPacket := by
  simp [RxHead.step, RtuHeader.step, rtuIn, VlanUnit.srcFab, inside.sof, inside.eof, inside.error]

theorem step_quiet (inside : Inside s i) : (s.step regs i).rtu.abort = false := by
  simp [RxHead.step, RtuHeader.step, rtuIn, VlanUnit.srcFab, inside.error]

theorem step_header (inside : Inside s i) :
    (s.step regs i).rtu.inHeader = (s.rtu.inHeader && !(s.rtu.validBasic && s.ready)) := by
  have out := validOut_eq s i
  cases asks : s.rtu.validBasic && s.ready <;>
    simp_all [RxHead.step, RtuHeader.step, rtuIn, VlanUnit.srcFab, inside.sof, inside.error]

theorem step_basic (inside : Inside s i) : (s.step regs i).rtu.validBasic =
    ((s.vlan.src.dvalid && s.rtu.hdrOffset.getLsbD 6 && s.rtu.inPacket) ||
      (s.rtu.validBasic && !(s.rtu.validBasic && s.ready))) := by
  have out := validOut_eq s i
  simp only [RxHead.step, RtuHeader.step, out]
  simp only [rtuIn, VlanUnit.srcFab, inside.error, Bool.or_false]
  cases s.vlan.src.dvalid && s.rtu.hdrOffset.getLsbD 6 && s.rtu.inPacket <;>
    cases s.rtu.validBasic <;> cases s.ready <;> rfl

theorem step_macs (s : RxHead) (i : RxHeadIn) (k : Fin 6) : (s.step regs i).rtu.macs k =
    if s.rtu.hdrOffset.getLsbD k && s.vlan.src.dvalid then s.vlan.src.data else s.rtu.macs k := rfl

theorem pulses_inside (inside : Inside s i) (quiet : s.rtu.abort = false) :
    s.pulses i = if s.rtu.validBasic && s.ready then [.request s.rtuRq] else [] := by
  have out := validOut_eq s i
  have shown : (s.rtuIn i).snkFab.error = false := inside.error
  simp only [pulses, RtuHeader.rqValid, out, shown, quiet]
  simp

/-- Past the header the shift register shows none of its words. -/
theorem late_bits {m k : Nat} (late : 7 ≤ m) (early : k < 7) : (oneHot m).getLsbD k = false := by
  rw [oneHot_bit m k (by omega)]
  simp
  omega

theorem late_hdr (inside : Inside s i) (late : ∃ m, 7 ≤ m ∧ s.rtu.hdrOffset = oneHot m) :
    ∃ m, 7 ≤ m ∧ (s.step regs i).rtu.hdrOffset = oneHot m := by
  obtain ⟨m, past, hdr⟩ := late
  rw [step_hdr inside, hdr]
  split
  · exact ⟨m + 1, by omega, oneHot_next m⟩
  · exact ⟨m, past, rfl⟩

theorem Shows.next (sh : Shows s f) (inside : Inside s i) : Waits (s.step regs i) f := by
  obtain ⟨hdr, macs, packet, quiet⟩ := sh.gathered
  constructor
  · refine ⟨7, le_rfl, ?_, ?_, ?_, step_quiet inside⟩
    · rw [step_hdr inside, sh.dvalid, hdr]
      exact oneHot_next 6
    · intro k _
      rw [step_macs, hdr, oneHot_bit 6 k (by omega), if_neg (by simp; omega)]
      exact macs k k.isLt
    · rw [step_packet inside, packet]
  · rw [step_basic inside, sh.dvalid, sh.basic, hdr, oneHot_bit 6 6 (by omega), packet]
    simp
  · intro accepted
    rw [step_header inside, sh.header accepted, sh.basic]
    rfl

theorem Waits.hdr (w : Waits s f) : ∃ m, 7 ≤ m ∧ s.rtu.hdrOffset = oneHot m := by
  obtain ⟨m, past, gathered⟩ := w.gathered
  exact ⟨m, past, gathered.hdr⟩

theorem Waits.late (w : Waits s f) : s.rtu.hdrOffset.getLsbD 6 = false := by
  obtain ⟨m, past, hdr⟩ := w.hdr
  rw [hdr, late_bits past (by omega)]

theorem Waits.stays (w : Waits s f) (inside : Inside s i) (held : s.ready = false) : Waits (s.step regs i) f := by
  obtain ⟨m, past, gathered⟩ := w.gathered
  constructor
  · obtain ⟨m', past', hdr⟩ : ∃ m, 7 ≤ m ∧ (s.step regs i).rtu.hdrOffset = oneHot m := late_hdr inside w.hdr
    refine ⟨m', past', hdr, ?_, ?_, step_quiet inside⟩
    · intro k _
      rw [step_macs, gathered.hdr, late_bits past (by omega), if_neg (by simp)]
      exact gathered.macs k (by omega)
    · rw [step_packet inside, gathered.packet]
  · rw [step_basic inside, w.late, held, w.basic]
    simp
  · intro accepted
    rw [step_header inside, w.header accepted, held]
    simp

theorem Waits.asks (w : Waits s f) (inside : Inside s i) (ready : s.ready = true) : Done (s.step regs i) f := by
  obtain ⟨m, past, gathered⟩ := w.gathered
  constructor
  · exact late_hdr inside w.hdr
  · rw [step_packet inside, gathered.packet]
  · exact step_quiet inside
  · rw [step_basic inside, w.late, ready]
    simp
  · intro accepted
    rw [step_header inside, w.basic, ready, accepted]
    simp

theorem Done.stays (d : Done s f) (inside : Inside s i) : Done (s.step regs i) f := by
  obtain ⟨m, past, hdr⟩ := d.hdr
  constructor
  · exact late_hdr inside d.hdr
  · rw [step_packet inside, d.packet]
  · exact step_quiet inside
  · rw [step_basic inside, d.basic, hdr, late_bits past (by omega)]
    simp
  · intro accepted
    rw [step_header inside, d.header accepted]
    rfl

/-- The pulse of an accepted frame's request. -/
def asked (f : Frame) (rq : RtuRequest) : List RtuEvent := if f.accepted then [.request rq] else []

theorem Waits.pulses (w : Waits s f) (inside : Inside s i) :
    s.pulses i = if s.ready then asked f s.rtuRq else [] := by
  obtain ⟨m, -, gathered⟩ := w.gathered
  rw [pulses_inside inside gathered.quiet, w.basic, asked]
  cases f.accepted <;> cases s.ready <;> rfl

end WrCores.Endpoint.RxHead
