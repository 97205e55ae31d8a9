import WrCores.Endpoint.RtuFrames
import WrCores.Endpoint.RxBufferFrames

/-!
Whole frames through ep_rx_vlan_unit.vhd, for any `src_dreq_i`. A frame comes as sof, words and eof or error, with any
gaps between; an error hides what stands beside it. The output shows the sof of a frame at once and everything else from
registers, so what stands in them beside a sof belongs to the frame before.
-/

namespace WrCores.Endpoint.VlanUnit

open Clocked
open RxBuffer (Word fabWord)
open RxHead (oneHot oneHot_bit oneHot_next)

inductive Ending where
  | eof | error
  deriving DecidableEq, Repr

structure Frame where
  words : List Word := []
  endings : List Ending := []
  deriving DecidableEq, Repr

/-! ### The decision table -/

/-- The type of the tag, once the words that tell it are there. -/
def tagType (words : List Word) : Option TagType :=
  match words[6]? with
  | none => none
  | some ethertype =>
      if ethertype.data == 0x8100 then words[7]?.map fun tci => combTagType true tci.data else some .none

def tpid : Word := ⟨cWrfData, 0x8100, false⟩

def portTci (regs : VlanRegs) : Word := ⟨cWrfData, regs.prioVal ++ 0#1 ++ regs.pvid, false⟩

def insertTci (regs : VlanRegs) (words : List Word) : List Word :=
  words.take 6 ++ [tpid, portTci regs] ++ words.drop 6

def withPvid (regs : VlanRegs) (w : Word) : Word := { w with data := w.data.extractLsb' 12 4 ++ regs.pvid }

/-- The words that leave the unit, or none when the frame is not admitted. -/
def table (regs : VlanRegs) (words : List Word) : Option (List Word) :=
  match tagType words with
  | none => some words
  | some type =>
      let decision := fVlanDecision type regs.qmode
      if regs.qmode = .vlanDisabled then some words
      else if type = .none ∧ regs.qmode = .access then some (insertTci regs words)
      else if type = .prio ∧ decision.usePvid then some (words.modify 7 (withPvid regs))
      else if decision.admits then some words
      else none

/-- The VID field of the tag, when it is among the words. -/
def tagVid? (words : List Word) : Option (BitVec 12) :=
  match words[6]? with
  | none => none
  | some ethertype =>
      if ethertype.data == 0x8100 then words[7]?.map (·.data.extractLsb' 0 12) else none

/-- An output frame beside its input frame: its words come in the order of the table, and its ending behind the last. -/
def Follows (regs : VlanRegs) (heard shown : Frame) : Prop :=
  match table regs heard.words with
  | some words => shown.words <+: words ∧ (shown.endings ≠ [] → shown.words = words ∧ shown.endings = heard.endings)
  | none => shown.words <+: heard.words ∧ (shown.endings ≠ [] → shown.endings = [.error])

/-! ### The table, word by word -/

section Table

theorem modify_front {α : Type*} {words more : List α} {n : Nat} {change : α → α} (inside : n < words.length) :
    (words ++ more).modify n change = words.modify n change ++ more := by
  induction words generalizing n with
  | nil => simp at inside
  | cons first rest ih =>
      cases n with
      | zero => rfl
      | succ n =>
          have deeper := ih (n := n) (by simpa using inside)
          simp [deeper]

variable {regs : VlanRegs} {words : List Word} {w : Word}

theorem modify_last {α : Type*} {words : List α} {last : α} {change : α → α} :
    (words ++ [last]).modify words.length change = words ++ [change last] := by
  induction words with
  | nil => rfl
  | cons first rest ih => simp [ih]

/-- The seventh word says that a tag follows. -/
def tagged (words : List Word) : Bool :=
  match words[6]? with
  | none => false
  | some ethertype => ethertype.data == 0x8100

theorem tagged_append (more : List Word) (typed : 7 ≤ words.length) : tagged (words ++ more) = tagged words := by
  simp only [tagged, List.getElem?_append_left (show 6 < words.length by omega)]

theorem tagType_early (early : words.length ≤ 6) : tagType words = none := by
  simp [tagType, List.getElem?_eq_none early]

theorem tagType_untagged (typed : 7 ≤ words.length) (untagged : tagged words = false) :
    tagType words = some .none := by
  have here : words[6]? = some words[6] := List.getElem?_eq_getElem (by omega)
  simp only [tagged, here] at untagged
  simp only [tagType, here, untagged, Bool.false_eq_true, if_false]

theorem tagType_tagged (tag : tagged words = true) : tagType words = words[7]?.map
    fun tci => combTagType true tci.data := by
  unfold tagged at tag
  unfold tagType
  cases here : words[6]? with
  | none => simp [here] at tag
  | some ethertype => simp_all

theorem tagType_append {type : TagType} (more : List Word) (known : tagType words = some type) :
    tagType (words ++ more) = some type := by
  have typed : 7 ≤ words.length := by
    by_contra early
    rw [tagType_early (by omega)] at known
    exact absurd known (by simp)
  cases tag : tagged words with
  | false =>
      rw [tagType_untagged typed tag] at known
      rw [← known]
      exact tagType_untagged (by simp; omega) (by rw [tagged_append more typed, tag])
  | true =>
      rw [tagType_tagged tag] at known
      obtain ⟨tci, at7, rfl⟩ := Option.map_eq_some_iff.1 known
      obtain ⟨inside, -⟩ := List.getElem?_eq_some_iff.1 at7
      rw [tagType_tagged (by rw [tagged_append more typed, tag]), List.getElem?_append_left inside, known]

theorem table_none (refused : table regs words = none) (more : List Word) : table regs (words ++ more) = none := by
  cases known : tagType words with
  | none => simp [table, known] at refused
  | some type =>
      simp only [table, known] at refused
      simp only [table, tagType_append more known]
      split_ifs at refused ⊢
      rfl

theorem table_early (early : words.length ≤ 6) : table regs words = some words := by
  simp [table, tagType_early early]

theorem table_tag (tag : tagged words = true) (short : words.length = 7) : table regs words = some words := by
  simp [table, tagType_tagged tag, List.getElem?_eq_none (le_of_eq short)]

/-- Behind the words that decide, the frame goes on as it comes. -/
theorem table_snoc {made : List Word} (early : words.length ≠ 6) (plain : words.length = 7 → tagged words = false)
    (sure : table regs words = some made) : table regs (words ++ [w]) = some (made ++ [w]) := by
  cases known : tagType words with
  | none =>
      have short : words.length < 6 := by
        by_contra long
        cases tag : tagged words with
        | false =>
            rw [tagType_untagged (by omega) tag] at known
            exact absurd known (by simp)
        | true =>
            have longer : 8 ≤ words.length := by
              rcases Nat.lt_or_ge words.length 8 with shorter | longer
              · rw [plain (by omega)] at tag
                exact absurd tag (by simp)
              · exact longer
            rw [tagType_tagged tag, List.getElem?_eq_getElem (show 7 < words.length by omega)] at known
            exact absurd known (by simp)
      rw [table_early (by omega)] at sure
      rw [table_early (by simp; omega), Option.some.inj sure]
  | some type =>
      have typed : 7 ≤ words.length := by
        by_contra short
        rw [tagType_early (by omega)] at known
        exact absurd known (by simp)
      have named : type = .prio → 8 ≤ words.length := by
        intro prio
        cases tag : tagged words with
        | false =>
            rw [tagType_untagged typed tag, prio] at known
            exact absurd known (by simp)
        | true =>
            rcases Nat.lt_or_ge words.length 8 with shorter | longer
            · rw [plain (by omega)] at tag
              exact absurd tag (by simp)
            · exact longer
      simp only [table, known] at sure
      simp only [table, tagType_append [w] known]
      split_ifs at sure ⊢ with disabled inserts replaces admits
      · rw [Option.some.inj sure]
      · rw [← Option.some.inj sure]
        simp [insertTci, List.take_append_of_le_length (show 6 ≤ words.length by omega),
          List.drop_append_of_le_length (show 6 ≤ words.length by omega)]
      · rw [← Option.some.inj sure, modify_front (by have := named replaces.1; omega)]
      · rw [Option.some.inj sure]

theorem table_plain (short : words.length = 6) (tag : (w.data == 0x8100) = true) :
    table regs (words ++ [w]) = some (words ++ [w]) := by
  have at6 : (words ++ [w])[6]? = some w := by simp [← short]
  exact table_tag (by simp only [tagged, at6, tag]) (by simp [short])

theorem table_untagged (short : words.length = 6) (untagged : (w.data == 0x8100) = false) :
    table regs (words ++ [w]) =
      if regs.qmode = .access then some (words ++ [tpid, portTci regs, w])
      else if regs.qmode = .trunk then none else some (words ++ [w]) := by
  have at6 : (words ++ [w])[6]? = some w := by simp [← short]
  have known : tagType (words ++ [w]) = some .none :=
    tagType_untagged (by simp [short]) (by simp only [tagged, at6, untagged])
  simp only [table, known]
  cases qmode : regs.qmode <;> simp [fVlanDecision, insertTci, ← short]

theorem tagged_header (header : List Word) (six : header.length = 6) (rest : List Word) :
    tagged (header ++ w :: rest) = (w.data == 0x8100) := by
  have at6 : (header ++ w :: rest)[6]? = some w := by simp [← six]
  simp only [tagged, at6]

theorem table_access (header : List Word) (six : header.length = 6) (untagged : (w.data == 0x8100) = false)
    (access : regs.qmode = .access) (rest : List Word) :
    table regs (header ++ w :: rest) = some (header ++ tpid :: portTci regs :: w :: rest) := by
  have known : tagType (header ++ w :: rest) = some .none :=
    tagType_untagged (by simp [six]; omega) (by rw [tagged_header header six, untagged])
  simp [table, known, access, insertTci, ← six]

theorem combTagType_tagged (data : BitVec 16) : combTagType true data ≠ .none := by
  unfold combTagType
  split_ifs <;> simp_all

/-- Only a priority tag takes the VID of the port, and a frame that is not admitted keeps its own. -/
theorem decision_pvid (type : TagType) (qmode : Qmode) (tag : type ≠ .none) :
    (fVlanDecision type qmode).usePvid = true →
      type = .prio ∧ qmode ≠ .vlanDisabled ∧ (fVlanDecision type qmode).admits = true := by
  cases type <;> cases qmode <;> simp_all [fVlanDecision]

theorem decision_disabled (type : TagType) : (fVlanDecision type .vlanDisabled).admits = true := by
  cases type <;> rfl

theorem table_tci (short : words.length = 7) (tag : tagged words = true) :
    table regs (words ++ [w]) =
      let decision := fVlanDecision (combTagType true w.data) regs.qmode
      if decision.admits then some (words ++ [if decision.usePvid then withPvid regs w else w]) else none := by
  have at7 : (words ++ [w])[7]? = some w := by simp [← short]
  have known : tagType (words ++ [w]) = some (combTagType true w.data) := by
    rw [tagType_tagged (by rw [tagged_append [w] (by omega), tag]), at7]
    rfl
  have some_type := combTagType_tagged w.data
  have replaced : (words ++ [w]).modify 7 (withPvid regs) = words ++ [withPvid regs w] := by
    rw [← short]
    exact modify_last
  have pvid := decision_pvid (combTagType true w.data) regs.qmode some_type
  simp only [table, known, replaced]
  cases use : (fVlanDecision (combTagType true w.data) regs.qmode).usePvid with
  | true =>
      obtain ⟨prio, enabled, admits⟩ := pvid use
      simp [prio, enabled, prio ▸ admits]
  | false =>
      by_cases disabled : regs.qmode = .vlanDisabled
      · simp [disabled, decision_disabled]
      · simp [disabled, some_type]

/-! ### The VID among the words -/

theorem tagVid_eq (words : List Word) :
    tagVid? words = if tagged words then words[7]?.map (·.data.extractLsb' 0 12) else none := by
  unfold tagVid? tagged
  cases words[6]? <;> rfl

theorem tagVid_short (short : words.length ≤ 7) : tagVid? words = none := by
  simp [tagVid_eq, List.getElem?_eq_none short]

theorem tagVid_snoc (plain : words.length = 7 → tagged words = false) : tagVid? (words ++ [w]) = tagVid? words := by
  rcases Nat.lt_trichotomy words.length 7 with less | seven | more
  · rw [tagVid_short (by simp; omega), tagVid_short (by omega)]
  · rw [tagVid_eq, tagVid_eq, tagged_append [w] (by omega), plain seven]
    rfl
  · rw [tagVid_eq, tagVid_eq, tagged_append [w] (by omega), List.getElem?_append_left more]

theorem tagVid_kept {vid : BitVec 12} (more : List Word) (named : vid ∈ tagVid? words) :
    vid ∈ tagVid? (words ++ more) := by
  have long : 7 < words.length := by
    by_contra short
    rw [tagVid_short (by omega)] at named
    exact absurd named (by simp)
  rw [tagVid_eq] at named ⊢
  rwa [tagged_append more (by omega), List.getElem?_append_left long]

theorem tagVid_tci (short : words.length = 7) (tag : tagged words = true) :
    tagVid? (words ++ [w]) = some (w.data.extractLsb' 0 12) := by
  have at7 : (words ++ [w])[7]? = some w := by simp [← short]
  rw [tagVid_eq, tagged_append [w] (by omega), tag, at7]
  rfl

theorem low_vid (high : BitVec 4) (low : BitVec 12) : BitVec.extractLsb' 0 12 (high ++ low : BitVec 16) = low :=
  BitVec.extractLsb'_append_eq_right

theorem tagVid_port (header : List Word) (six : header.length = 6) (rest : List Word) :
    tagVid? (header ++ tpid :: portTci regs :: rest) = some regs.pvid := by
  have at7 : (header ++ tpid :: portTci regs :: rest)[7]? = some (portTci regs) := by
    rw [List.getElem?_append_right (by omega), six]
    rfl
  rw [tagVid_eq, tagged_header header six, at7]
  simp only [tpid, portTci, beq_self_eq_true, if_true, Option.map_some]
  exact congrArg some (low_vid _ _)

/-- What the table has made of the words so far is tagged only if the frame is. -/
theorem made_plain {made : List Word} (plain : words.length = 7 → tagged words = false)
    (sure : table regs words = some made) (seven : made.length = 7) : tagged made = false := by
  cases known : tagType words with
  | none =>
      obtain rfl : words = made := by simpa [table, known] using sure
      exact plain seven
  | some type =>
      have typed : 7 ≤ words.length := by
        by_contra short
        rw [tagType_early (by omega)] at known
        exact absurd known (by simp)
      simp only [table, known] at sure
      split_ifs at sure with disabled inserts replaces admits <;> obtain rfl := Option.some.inj sure
      · exact plain seven
      · simp only [insertTci, List.length_append, List.length_take, List.length_drop, List.length_cons,
        List.length_nil]
          at seven
        omega
      · rw [List.length_modify] at seven
        rw [tagType_untagged typed (plain seven)] at known
        exact absurd (Option.some.inj known) (by simp [replaces.1])
      · exact plain seven

end Table

/-! ### What comes and what is shown -/

structure In where
  snkFab : InternalFabric := {}
  srcDreq : Bool := true
  deriving DecidableEq, Repr

def Frame.hear (f : Frame) (snk : InternalFabric) : Frame :=
  if snk.error then { f with endings := f.endings ++ [.error] }
  else
    { words := f.words ++ if snk.dvalid then [fabWord snk] else []
      endings := f.endings ++ if snk.eof then [.eof] else [] }

def Frame.show (f : Frame) (src : InternalFabric) : Frame where
  words := f.words ++ if src.dvalid then [fabWord src] else []
  endings := f.endings ++ ((if src.eof then [.eof] else []) ++ if src.error then [.error] else [])

/-- The frames that came and what was shown of each, the newest first; `snk_dreq_o` and `src_dreq_i` in the cycle before. -/
structure Book where
  frames : List (Frame × Frame) := []
  asked : Bool := false
  srcDreq : Bool := false
  deriving DecidableEq, Repr

def Book.next (b : Book) (s : VlanUnit) (i : In) : Book where
  frames :=
    (if i.snkFab.sof then [({}, {})] else []) ++
      match b.frames with
      | [] => []
      | (heard, shown) :: rest => (heard.hear i.snkFab, shown.show s.src) :: rest
  asked := s.snkDreq i.srcDreq
  srcDreq := i.srcDreq

def stepBook (regs : VlanRegs) (p : VlanUnit × Book) (i : In) : VlanUnit × Book :=
  (p.1.step regs i.snkFab i.srcDreq, p.2.next p.1 i)

/-- A frame has begun and not ended. -/
def Book.inside (b : Book) : Bool :=
  match b.frames with
  | [] => false
  | (heard, _) :: _ => heard.endings.isEmpty

/-- The frames on `snk_fab_i` come one after the other and respect `snk_dreq_o`. -/
structure Frames (b : Book) (i : In) : Prop where
  start : i.snkFab.sof = true →
    b.inside = false ∧ i.snkFab.dvalid = false ∧ i.snkFab.eof = false ∧ i.snkFab.error = false
  inside : (i.snkFab.dvalid || i.snkFab.eof || i.snkFab.error) = true → b.inside = true
  asked : (i.snkFab.sof || i.snkFab.dvalid || i.snkFab.eof || i.snkFab.error) = true → b.asked = true

/-- What the words and the endings of all frames are at any time. -/
structure Right (regs : VlanRegs) (p : VlanUnit × Book) : Prop where
  frames : ∀ f ∈ p.2.frames, Follows regs f.1 f.2
  ended : ∀ f ∈ p.2.frames.tail, f.1.endings.length = 1 ∧ f.2.endings.length = 1
  dreq : p.1.src.dvalid = true → p.2.srcDreq = true
  vid : ∀ f ∈ p.2.frames.head?, f.2.endings = [] → ∀ vid ∈ tagVid? (f.2.show p.1.src).words, p.1.vid = vid
  silent : p.2.frames = [] → p.1.src.dvalid = false ∧ p.1.src.eof = false ∧ p.1.src.error = false

/-! ### Where the unit slips -/

/-- The seventh word is the ethertype of an untagged frame. -/
def untaggedAt (s : VlanUnit) (snk : InternalFabric) : Bool := s.atEthertype snk && snk.data != 0x8100

def insertsAt (s : VlanUnit) (regs : VlanRegs) (snk : InternalFabric) : Bool :=
  s.untaggedAt snk && regs.qmode == .access

def refusesAt (s : VlanUnit) (regs : VlanRegs) (snk : InternalFabric) : Bool :=
  s.untaggedAt snk && regs.qmode == .trunk

def decisionAt (s : VlanUnit) (regs : VlanRegs) (snk : InternalFabric) : VlanDecision :=
  fVlanDecision (combTagType s.isTagged snk.data) regs.qmode

/-- A word that comes without `src_dreq_i` is kept, but what the variable of the output has is shown again, and neither
`0x8100` nor the VID waits. -/
def keeps (s : VlanUnit) (regs : VlanRegs) (snk : InternalFabric) : Bool :=
  (!s.vSrcFab.dvalid || s.refusesAt regs snk) && !s.insertsAt regs snk &&
    !(s.atVid snk && (s.decisionAt regs snk).admits && !(s.decisionAt regs snk).usePvid)

/-- What must not come where. -/
structure Spares (regs : VlanRegs) (s : VlanUnit) (i : In) : Prop where
  start : i.snkFab.sof = true → s.state = .waitFrame
  alone : i.snkFab.eof = true → i.snkFab.error = false → i.snkFab.dvalid = false
  word : s.state = .data → i.snkFab.error = false → i.snkFab.dvalid = true → i.srcDreq = false →
    s.keeps regs i.snkFab = true
  header : s.state = .data → i.snkFab.error = false → s.insertsAt regs i.snkFab = true →
    i.snkFab.addr = cWrfData ∧ i.snkFab.bytesel = false
  insert : s.state = .insertTag → i.snkFab.error = false →
    i.snkFab.eof = false ∧ (i.snkFab.dvalid = true → i.srcDreq = true)
  discard : s.state = .discardFrame → i.srcDreq = false → s.src.dvalid = false
  error : i.snkFab.error = true → s.src.dvalid = false ∧ s.state ≠ .waitFrame

instance (b : Book) (i : In) : Decidable (Frames b i) :=
  decidable_of_iff (_ ∧ _ ∧ _) ⟨fun ⟨a, b, c⟩ => ⟨a, b, c⟩, fun ⟨a, b, c⟩ => ⟨a, b, c⟩⟩

set_option synthInstance.maxSize 400 in
instance (regs : VlanRegs) (s : VlanUnit) (i : In) : Decidable (Spares regs s i) :=
  decidable_of_iff (_ ∧ _ ∧ _ ∧ _ ∧ _ ∧ _ ∧ _)
    ⟨fun ⟨a, b, c, d, e, f, g⟩ => ⟨a, b, c, d, e, f, g⟩, fun ⟨a, b, c, d, e, f, g⟩ => ⟨a, b, c, d, e, f, g⟩⟩

end WrCores.Endpoint.VlanUnit
