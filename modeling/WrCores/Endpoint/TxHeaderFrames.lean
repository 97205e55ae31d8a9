import Mathlib.Tactic
import WrCores.Endpoint.TxHeader

/-!
The frames that ep_tx_header_processor.vhd sends, with the cycles on its sink at any pace and the PCS ready when it is.
What was accepted is on `src_fab_o` at once; owed are only the zeros of a frame that is padded, and its eof, or the rest
of a pause frame. `sel` says whether bytesel is looked at.
-/

namespace WrCores.Endpoint.TxHeader

open Clocked Fabric

inductive Event where
  | sof
  | word (addr : BitVec 2) (data : BitVec 16) (bytesel : Bool)
  | eof
  | error
  deriving DecidableEq, Repr

def fabEvents (sel : Bool) (fab : InternalFabric) : List Event :=
  (if fab.sof then [Event.sof] else []) ++
    ((if fab.dvalid then [Event.word fab.addr fab.data (sel && fab.bytesel)] else []) ++
      ((if fab.eof then [Event.eof] else []) ++ (if fab.error then [Event.error] else [])))

/-! ### What is to be sent -/

/-- What counts of a cycle: whether the last STATUS word says that it has its source address, and the DATA words. -/
structure Content where
  hasSmac : Bool
  data : List Word
  deriving DecidableEq, Repr

def smac (ws : List Word) : Bool :=
  ((ofAdr cWrfStatus ws).getLast?.map (fun w => (fUnmarshallWrfStatus w.dat).hasSmac)).getD false

def content (ws : List Word) : Content := ⟨smac ws, ofAdr cWrfData ws⟩

/-- The port's address in its places, where the frame has none. -/
def macWord (r : Regs) (hasSmac : Bool) (place : Nat) (dat : BitVec 16) : BitVec 16 :=
  if hasSmac then dat
  else if place = 3 then r.machO
  else if place = 4 then r.maclO.extractLsb' 16 16
  else if place = 5 then r.maclO.extractLsb' 0 16
  else dat

/-- The seventh word is a tag that the port takes off again. -/
def tagged (r : Regs) (data : List Word) : Bool := (data[6]?.map (fun w => State.untags r w.dat)).getD false

/-- The length that a frame has at least. -/
def limit (g : Generics) (r : Regs) (data : List Word) : Nat :=
  if tagged r data then cMinQframeThr else if g.gRuntPadding then cMinFrameThr else 0

namespace Content

variable (sel : Bool) (g : Generics) (r : Regs) (c : Content)

def wordEvent (long : Bool) (place : Nat) (w : Word) : Event :=
  .word cWrfData (macWord r c.hasSmac place w.dat) (sel && (long && odd w))

/-- Bytesel marks the last word of an odd frame that needs no padding. -/
def opening : List Event :=
  .sof :: c.data.mapIdx (c.wordEvent sel r (decide (limit g r c.data ≤ c.data.length)))

end Content

def zeros (n : Nat) : List Event := List.replicate n (.word cWrfData 0 false)

def Content.events (sel : Bool) (g : Generics) (r : Regs) (c : Content) : List Event :=
  c.opening sel g r ++ (zeros (limit g r c.data - c.data.length) ++ [.eof])

/-- The words of a pause frame in front of the padding. -/
def pauseWords (r : Regs) (delay : BitVec 16) : List (BitVec 16) :=
  [0x0180, 0xc200, 0x0001, r.machO, r.maclO.extractLsb' 16 16, r.maclO.extractLsb' 0 16, 0x8808, 0x0001, delay]

def plain (dat : BitVec 16) : Event := .word cWrfData dat false

def pauseEvents (r : Regs) (delay : BitVec 16) : List Event :=
  .sof :: ((pauseWords r delay).map plain ++ (zeros 21 ++ [.eof]))

inductive Item where
  | user (c : Content)
  | pause (delay : BitVec 16)
  deriving DecidableEq, Repr

def Item.events (sel : Bool) (g : Generics) (r : Regs) : Item → List Event
  | .user c => c.events sel g r
  | .pause delay => pauseEvents r delay

def users (items : List Item) : List Content :=
  items.filterMap (fun | .user c => some c | .pause _ => none)

def pauses (items : List Item) : List (BitVec 16) :=
  items.filterMap (fun | .user _ => none | .pause delay => some delay)

/-! ### Runs -/

/-- The cycles that have ended, the words of the one that is going on, what was sent, the quanta of the pauses that were
asked for, `fc_pause_req_i` and `fc_pause_ready_o` in the cycle before, and the frames whose timestamps were taken. -/
structure Book where
  done : List (List Word) := []
  coming : Option (List Word) := none
  shown : List Event := []
  asked : List (BitVec 16) := []
  req : Bool := false
  ready : Bool := true
  stamped : List (BitVec 16) := []
  deriving DecidableEq, Repr

def Book.next (sel : Bool) (b : Book) (s : State) (i : In) : Book where
  done := if s.eofP1 i then b.done ++ [b.coming.getD []] else b.done
  coming := if i.wbSnk.cyc then some (b.coming.getD [] ++ takes s i) else none
  shown := b.shown ++ fabEvents sel s.srcFab
  asked := if i.fcPauseReq && !b.req then b.asked ++ [i.fcPauseDelay] else b.asked
  req := i.fcPauseReq
  ready := s.fcPauseReady
  stamped := if s.txtsuStb && i.txtsuAck then b.stamped ++ [s.txtsuFid] else b.stamped

def stepBook (sel : Bool) (g : Generics) (r : Regs) (p : State × Book) (i : In) : State × Book :=
  (p.1.step g r i, p.2.next sel p.1 i)

/-- The cycles on the sink, at any pace. -/
structure Frames (s : State) (b : Book) (i : In) : Prop where
  word : s.snkValid i = true → Follows (b.coming.getD []) i.wbSnk.word
  ends : s.eofP1 i = true → 7 ≤ (ofAdr cWrfData (b.coming.getD [])).length

/-- In TXF_DATA, while the frame is short, the address is that of OOB words only with such a word; no frame has 2^14
DATA words. -/
structure Addressed (g : Generics) (s : State) (b : Book) (i : In) : Prop where
  adr : s.state = .data → s.needsPadding g = true → i.wbSnk.adr = cWrfOob → s.snkValid i = true ∨ s.eofP1 i = true
  short : s.snkValid i = true → i.wbSnk.adr = cWrfData → (ofAdr cWrfData (b.coming.getD [])).length + 1 < 2 ^ 14

/-- When an odd frame's last word comes, `needs_padding` is what it will be behind that word. -/
def Sized (g : Generics) (r : Regs) (s : State) (b : Book) (i : In) : Prop :=
  s.snkValid i = true → i.wbSnk.adr = cWrfData → odd i.wbSnk.word = true → s.state = .data →
    let data := ofAdr cWrfData (b.coming.getD []) ++ [i.wbSnk.word]
    s.needsPadding g = decide (data.length < limit g r data)

instance (s : State) (b : Book) (i : In) : Decidable (Frames s b i) :=
  decidable_of_iff (_ ∧ _) ⟨fun ⟨a, b⟩ => ⟨a, b⟩, fun ⟨a, b⟩ => ⟨a, b⟩⟩

instance (g : Generics) (s : State) (b : Book) (i : In) : Decidable (Addressed g s b i) :=
  decidable_of_iff (_ ∧ _) ⟨fun ⟨a, b⟩ => ⟨a, b⟩, fun ⟨a, b⟩ => ⟨a, b⟩⟩

instance (g : Generics) (r : Regs) (s : State) (b : Book) (i : In) : Decidable (Sized g r s b i) :=
  inferInstanceAs (Decidable (_ → _))

/-- A request is held until `fc_pause_ready_o` falls, and its quanta are left alone until the next one. -/
structure Asks (s : State) (b : Book) (i : In) : Prop where
  held : b.req = true → (i.fcPauseReq = true ↔ ¬(b.ready = true ∧ s.fcPauseReady = false))
  delay : i.fcPauseReq = false → b.asked.getLastD i.fcPauseDelay = i.fcPauseDelay

/-- A request is raised while `fc_pause_ready_o` is up, with the PCS ready and no cycle starting. Until the last word of
the header is sent no cycle starts and no tag of an ACCESS port stands on the bus in the place of its seventh word; and no
STATUS word is accepted from then on until a user's frame has started. -/
structure Alone (g : Generics) (r : Regs) (s : State) (b : Book) (i : In) : Prop where
  raised : i.fcPauseReq = true → b.req = false → s.fcPauseReady = true
  granted : i.fcPauseReq = true → g.gWithPacketInjection = false ∧ i.srcDreq = true ∧ s.sofP1 i = false
  header : s.txPauseMode = true → s.state = .addr → s.sofP1 i = true → s.counter = 8 ∧ i.srcDreq = true
  tag : s.txPauseMode = true → s.state = .addr → s.counter = 6 → State.untags r i.wbSnk.dat = false
  status : s.txPauseMode = true → s.snkValid i = true → i.wbSnk.adr ≠ cWrfStatus

instance (s : State) (b : Book) (i : In) : Decidable (Asks s b i) :=
  decidable_of_iff (_ ∧ _) ⟨fun ⟨a, b⟩ => ⟨a, b⟩, fun ⟨a, b⟩ => ⟨a, b⟩⟩

instance (g : Generics) (r : Regs) (s : State) (b : Book) (i : In) : Decidable (Alone g r s b i) :=
  decidable_of_iff (_ ∧ _ ∧ _ ∧ _ ∧ _)
    ⟨fun ⟨a, b, c, d, e⟩ => ⟨a, b, c, d, e⟩, fun ⟨a, b, c, d, e⟩ => ⟨a, b, c, d, e⟩⟩

theorem eof_none {s : State} {i : In} (before : s.snkCycD0 = false) : s.eofP1 i = false := by
  rw [State.eofP1, before, Bool.false_and]

theorem eof_high {s : State} {i : In} (high : i.wbSnk.cyc = true) : s.eofP1 i = false := by
  rw [State.eofP1, high, Bool.not_true, Bool.and_false]

theorem eof_low {s : State} {i : In} (before : s.snkCycD0 = true) (low : i.wbSnk.cyc = false) : s.eofP1 i = true := by
  rw [State.eofP1, before, low]
  rfl

/-- A cycle of which less than seven DATA words have come goes on. -/
theorem Frames.goes_on {s : State} {b : Book} {i : In} (frames : Frames s b i) (before : s.snkCycD0 = true)
    (short : (ofAdr cWrfData (b.coming.getD [])).length < 7) : i.wbSnk.cyc = true ∧ s.eofP1 i = false := by
  have on : s.eofP1 i = false := by
    rw [Bool.eq_false_iff]
    intro ends
    exact absurd (frames.ends ends) (Nat.not_le.2 short)
  exact ⟨by simpa [State.eofP1, before] using on, on⟩

/-! ### Contents that grow -/

section Contents

variable (sel : Bool) (g : Generics) (r : Regs) {ws : List Word} {w : Word}

theorem content_oob (oob : w.adr = cWrfOob) : content (ws ++ [w]) = content ws := by
  simp only [content, smac]
  rw [ofAdr_other (by rw [oob]; decide), ofAdr_other (by rw [oob]; decide)]

theorem smac_data (data : w.adr = cWrfData) : smac (ws ++ [w]) = smac ws := by
  rw [smac, ofAdr_other (by rw [data]; decide)]
  rfl

theorem smac_status (status : w.adr = cWrfStatus) : smac (ws ++ [w]) = (fUnmarshallWrfStatus w.dat).hasSmac := by
  rw [smac, ofAdr_same status, List.getLast?_concat]
  rfl

theorem opening_nil (none : ofAdr cWrfData ws = []) : (content ws).opening sel g r = [.sof] := by
  simp [Content.opening, content, none]

/-- As long as all words are even, it makes no difference how long the frame is going to be. -/
theorem opening_data (data : w.adr = cWrfData) (even : ∀ v ∈ ofAdr cWrfData ws, odd v = false) :
    (content (ws ++ [w])).opening sel g r = (content ws).opening sel g r ++
      [(content ws).wordEvent sel r (decide (limit g r (ofAdr cWrfData ws ++ [w]) ≤ (ofAdr cWrfData ws).length + 1))
        (ofAdr cWrfData ws).length w] := by
  have words : content (ws ++ [w]) = ⟨smac ws, ofAdr cWrfData ws ++ [w]⟩ := by
    rw [content, smac_data data, ofAdr_same data]
  have same : (ofAdr cWrfData ws).mapIdx (Content.wordEvent sel r ⟨smac ws, ofAdr cWrfData ws ++ [w]⟩
        (decide (limit g r (ofAdr cWrfData ws ++ [w]) ≤ (ofAdr cWrfData ws ++ [w]).length))) =
      (ofAdr cWrfData ws).mapIdx ((content ws).wordEvent sel r
        (decide (limit g r (ofAdr cWrfData ws) ≤ (ofAdr cWrfData ws).length))) := by
    rw [List.mapIdx_eq_mapIdx_iff]
    intro k inside
    simp [Content.wordEvent, content, even _ (List.getElem_mem inside)]
  rw [words, Content.opening, List.mapIdx_concat, same, List.length_append]
  rfl

theorem users_snoc (items : List Item) (item : Item) : users (items ++ [item]) = users items ++ users [item] :=
  List.filterMap_append

theorem pauses_snoc (items : List Item) (item : Item) : pauses (items ++ [item]) = pauses items ++ pauses [item] :=
  List.filterMap_append

end Contents

/-! ### The framer between two edges -/

/-- What was sent, the cycle under way included. -/
def out (sel : Bool) (s : State) (b : Book) : List Event := b.shown ++ fabEvents sel s.srcFab

def allEvents (sel : Bool) (g : Generics) (r : Regs) (items : List Item) : List Event :=
  items.flatMap (Item.events sel g r)

section Phases

variable (sel : Bool) (g : Generics) (r : Regs) (s : State) (b : Book) (last owed : List Event)

/-- No cycle, one whose start is remembered, or one of which only OOB words may still come. -/
def Begun : Prop :=
  (b.coming = none ∧ s.sofReg = false ∧ last = []) ∨ (b.coming = some [] ∧ s.sofReg = true ∧ last = []) ∨
    ∃ ws, b.coming = some ws ∧ s.sofReg = false ∧ ofAdr cWrfOob ws ≠ [] ∧ last = (content ws).events sel g r

structure Rests : Prop where
  state : s.state = .idle ∨ s.state = .gap ∨ s.state = .storeTstamp
  sof : s.srcFab.sof = false
  begun : Begun sel g r s b last
  owed : owed = []

structure Pads : Prop where
  state : s.state = .pad
  sof : s.srcFab.sof = false
  eof : s.srcFab.eof = false
  error : s.srcFab.error = false
  bytesel : s.srcFab.bytesel = false
  begun : Begun sel g r s b last
  left : ∃ n, 0 < n ∧ owed = zeros n ++ [.eof] ∧
    s.counter.toNat + n = if s.toBeUntagged then cMinQframeThr else cMinFrameThr

/-- The header of a pause frame. -/
structure Heads : Prop where
  state : s.state = .addr
  pauses : s.pauses g = true
  eof : s.srcFab.eof = false
  error : s.srcFab.error = false
  bytesel : s.srcFab.bytesel = false
  coming : b.coming = none
  sofReg : s.sofReg = false
  own : s.counter ≠ 0 → s.storedStatus.hasSmac = false
  untagged : s.toBeUntagged = false
  count : s.counter.toNat < 9
  last : last = []
  owed : ∃ delay, b.asked.getLast? = some delay ∧
    owed = ((pauseWords r delay).drop s.counter.toNat).map plain ++ (zeros 21 ++ [.eof])

/-- The addresses of a user's frame. -/
structure Leads (ws : List Word) : Prop where
  state : s.state = .addr
  txPauseMode : s.txPauseMode = false
  eof : s.srcFab.eof = false
  error : s.srcFab.error = false
  bytesel : s.srcFab.bytesel = false
  coming : b.coming = some ws
  own : ofAdr cWrfStatus ws ≠ [] → s.storedStatus.hasSmac = smac ws
  count : s.counter.toNat = (ofAdr cWrfData ws).length
  short : (ofAdr cWrfData ws).length < 6
  last : last = (content ws).opening sel g r
  owed : owed = []

/-- The rest of it. -/
structure Flows (ws : List Word) : Prop where
  state : s.state = .data
  sof : s.srcFab.sof = false
  error : s.srcFab.error = false
  coming : b.coming = some ws
  sofReg : s.sofReg = false
  count : s.counter.toNat = (ofAdr cWrfData ws).length
  long : 6 ≤ (ofAdr cWrfData ws).length
  untags : 7 ≤ (ofAdr cWrfData ws).length → s.toBeUntagged = tagged r (ofAdr cWrfData ws)
  last : last = (content ws).opening sel g r
  owed : owed = []

def Moves : Prop :=
  Rests sel g r s b last owed ∨ Pads sel g r s b last owed ∨ Heads g r s b last owed ∨
    (∃ ws, Leads sel g r s b last owed ws) ∨ ∃ ws, Flows sel g r s b last owed ws

/-- Before the first frame of any kind. -/
structure Fresh : Prop where
  state : s.state = .idle
  coming : b.coming = none
  sofReg : s.sofReg = false

structure Handshake : Prop where
  cyc : s.snkCycD0 = b.coming.isSome
  fresh : s.fcPauseReady = true → Fresh s b
  req : b.req = true → b.ready = true ∧ s.fcPauseReady = false

/-- All frames that have ended and all pauses are there, and what is there of the cycle that is going on. -/
def Accounted (items : List Item) : Prop :=
  users items = b.done.map content ∧ pauses items = b.asked ∧ out sel s b ++ owed = allEvents sel g r items ++ last

def Balanced : Prop := ∃ items last owed, Accounted sel g r s b last owed items ∧ Moves sel g r s b last owed

def Kept : Prop := Handshake s b ∧ Balanced sel g r s b

end Phases

end WrCores.Endpoint.TxHeader
