import Mathlib.Data.List.Forall2
import Mathlib.Tactic
import WrCores.Clocked.Run
import WrCores.Endpoint.RxBuffer

/-!
Whole frames through ep_rx_buffer.vhd. The entries of its FIFO carry no addresses: the writer marks those that change it,
and the reader follows. Frames come as sof, words and eof or error, with any gaps between. `almost_full_o` and
`almost_empty_o` are the FIFO's, for the thresholds that the buffer gives it. Reset is over and `ecr_rx_en_o` stays.
-/

namespace WrCores.Endpoint.RxBuffer

open Clocked

def cWrfData : BitVec 2 := 0

structure Word where
  addr : BitVec 2
  data : BitVec 16
  bytesel : Bool
  deriving DecidableEq, Repr

inductive Event where
  | sof
  | word (w : Word)
  | ending (eof error : Bool)
  deriving DecidableEq, Repr

def fabWord (fab : InternalFabric) : Word := ⟨fab.addr, fab.data, fab.bytesel⟩

/-- What a cycle of `src_fab_o` shows. -/
def fabEvents (fab : InternalFabric) : List Event :=
  (if fab.sof then [Event.sof] else []) ++
    ((if fab.eof || fab.error then [Event.ending fab.eof fab.error] else []) ++
      (if fab.dvalid then [Event.word (fabWord fab)] else []))

structure Frame where
  words : List Word
  eof : Bool
  error : Bool
  deriving DecidableEq, Repr

/-- A frame up to its ending. -/
def opening (words : List Word) : List Event := .sof :: words.map .word

def Frame.events (f : Frame) : List Event := opening f.words ++ [.ending f.eof f.error]

/-! ### The frames that come -/

/-- What may stand behind `v`: STATUS words, DATA words and OOB words in this order, at least one DATA word in front of
the OOB words, and bytesel in the last DATA word only. -/
def Follows (v w : Word) : Prop :=
  (w.bytesel = true → w.addr = cWrfData) ∧
    ((v.addr = cWrfStatus ∧ (w.addr = cWrfStatus ∨ w.addr = cWrfData)) ∨
      (v.addr = cWrfData ∧ ((w.addr = cWrfData ∧ v.bytesel = false) ∨ w.addr = cWrfOob)) ∨
      (v.addr = cWrfOob ∧ w.addr = cWrfOob))

instance (v w : Word) : Decidable (Follows v w) := inferInstanceAs (Decidable (_ ∧ _))

/-- The words of a frame start as if behind a STATUS word. -/
def lead : Word := ⟨cWrfStatus, 0, false⟩

def Formed : Word → List Word → Prop
  | _, [] => True
  | v, w :: rest => Follows v w ∧ Formed w rest

/-- The frames that have ended, the words of the one that is coming, and what was shown. -/
structure Book where
  done : List Frame := []
  coming : Option (List Word) := none
  shown : List Event := []
  deriving DecidableEq, Repr

def ends (i : RxBufferIn) : Bool := i.snkFab.eof || i.snkFab.error

def Book.next (b : Book) (s : RxBuffer) (i : RxBufferIn) : Book where
  done := if ends i then b.done ++ [⟨b.coming.getD [], i.snkFab.eof, i.snkFab.error⟩] else b.done
  coming :=
    if i.snkFab.sof then some []
    else if i.snkFab.dvalid then b.coming.map (· ++ [fabWord i.snkFab])
    else if ends i then none
    else b.coming
  shown := b.shown ++ fabEvents s.srcFab

def stepBook (p : RxBuffer × Book) (i : RxBufferIn) : RxBuffer × Book := (p.1.step i, p.2.next p.1 i)

/-- One event at a time. -/
structure Frames (b : Book) (i : RxBufferIn) : Prop where
  sof : i.snkFab.sof = true → b.coming = none ∧ i.snkFab.dvalid = false ∧ ends i = false
  word : i.snkFab.dvalid = true → ends i = false ∧
    ∃ words ∈ b.coming, Follows (words.getLastD lead) (fabWord i.snkFab)
  ends : ends i = true → (i.snkFab.eof && i.snkFab.error) = false ∧
    ∃ words ∈ b.coming, ∃ w ∈ words, w.addr = cWrfData

/-- The thresholds of the FIFO. -/
structure Flags (size : Nat) (s : RxBuffer) (i : RxBufferIn) : Prop where
  qAfull : i.qAfull = decide (size - 3 ≤ s.fifo.length)
  qAempty : i.qAempty = decide (s.fifo.length ≤ size * 7 / 8)

/-- `q_out` and the output of the FIFO have no reset. -/
structure AfterReset (s : RxBuffer) : Prop where
  state : s.state = .waitFrame
  qDrop : s.qDrop = false
  fifo : s.fifo = []
  qOutValid : s.qOutValid = false
  outCurAddr : s.outCurAddr = cWrfStatus

instance (b : Book) (i : RxBufferIn) : Decidable (Frames b i) :=
  decidable_of_iff (_ ∧ _ ∧ _) ⟨fun ⟨a, b, c⟩ => ⟨a, b, c⟩, fun ⟨a, b, c⟩ => ⟨a, b, c⟩⟩

instance (size : Nat) (s : RxBuffer) (i : RxBufferIn) : Decidable (Flags size s i) :=
  decidable_of_iff (_ ∧ _) ⟨fun ⟨a, b⟩ => ⟨a, b⟩, fun ⟨a, b⟩ => ⟨a, b⟩⟩

instance (s : RxBuffer) : Decidable (AfterReset s) :=
  decidable_of_iff (_ ∧ _ ∧ _ ∧ _ ∧ _)
    ⟨fun ⟨a, b, c, d, e⟩ => ⟨a, b, c, d, e⟩, fun ⟨a, b, c, d, e⟩ => ⟨a, b, c, d, e⟩⟩

/-! ### What becomes of them -/

/-- Its only DATA word has one byte. -/
def Single (words : List Word) : Prop := ∃ w, words.filter (·.addr == cWrfData) = [w] ∧ w.bytesel = true

/-- The words of a frame that came through; nothing is said of the bytesel of an only DATA word. -/
def Agree (shown words : List Word) : Prop :=
  shown.map (fun w => (w.addr, w.data)) = words.map (fun w => (w.addr, w.data)) ∧ (¬Single words → shown = words)

/-- Absent, whole, or cut and flagged: eof stands beside the error of a cut only behind the last word. -/
def Fate (f : Frame) : Option Frame → Prop
  | none => True
  | some shown => ∃ front, front <+: f.words ∧ Agree shown.words front ∧
      ((front = f.words ∧ shown.eof = f.eof ∧ shown.error = f.error) ∨
        (shown.error = true ∧ (shown.eof = true → front = f.words)))

/-- The same for a frame that has not ended. -/
def Begun (coming : Option (List Word)) (events : List Event) : Prop :=
  events = [] ∨ ∃ words ∈ coming, ∃ front shown, front <+: words ∧ Agree shown front ∧
    ((front = words ∧ events = opening shown) ∨ events = Frame.events ⟨shown, false, true⟩)

def fateEvents (fates : List (Option Frame)) : List Event := fates.flatMap
    (fun fate => (fate.map Frame.events).getD [])

/-! ### The reader -/

def addrBehind (fab : InternalFabric) : BitVec 2 := if fab.sof || fab.eof || fab.error then cWrfStatus else fab.addr

/-- What the reader makes of entries, from an address on, and the address behind them. -/
def decode : BitVec 2 → List (BitVec 18) → List Event
  | _, [] => []
  | addr, entry :: rest =>
      let fab := fUnpackRbufContents entry addr true
      fabEvents fab ++ decode (addrBehind fab) rest

def after : BitVec 2 → List (BitVec 18) → BitVec 2
  | addr, [] => addr
  | addr, entry :: rest => after (addrBehind (fUnpackRbufContents entry addr true)) rest

theorem decode_append (first second : List (BitVec 18)) (addr : BitVec 2) :
    decode addr (first ++ second) = decode addr first ++ decode (after addr first) second := by
  induction first generalizing addr with
  | nil => rfl
  | cons entry rest ih => simp only [List.cons_append, decode, after, ih, List.append_assoc]

theorem after_append (first second : List (BitVec 18)) (addr : BitVec 2) :
    after addr (first ++ second) = after (after addr first) second := by
  induction first generalizing addr with
  | nil => rfl
  | cons entry rest ih => exact ih _

/-- What is on its way out and what is behind it. -/
def held (s : RxBuffer) : List (BitVec 18) := (if s.qOutValid then [s.qOut] else []) ++ s.fifo

section Reader

variable (s : RxBuffer) (i : RxBufferIn)

theorem held_step : held (s.step i) = s.fifo ++ (s.qIn i).toList := by
  cases read : s.qRd i with
  | false => simp [held, step, read]
  | true =>
      obtain ⟨e, rest, front⟩ : ∃ e rest, s.fifo = e :: rest := by
        cases fifo : s.fifo with
        | nil => simp [qRd, fifo] at read
        | cons e rest => exact ⟨e, rest, rfl⟩
      simp [held, step, read, front]

theorem outCurAddr_step : (s.step i).outCurAddr = addrBehind s.srcFab := rfl

theorem decode_held : decode s.outCurAddr (held s) = fabEvents s.srcFab ++ decode (addrBehind s.srcFab) s.fifo := by
  cases valid : s.qOutValid with
  | true => simp [held, valid, decode, srcFab]
  | false => simp [held, valid, srcFab, fUnpackRbufContents, fabEvents, addrBehind]

theorem after_held : after s.outCurAddr (held s) = after (addrBehind s.srcFab) s.fifo := by
  cases valid : s.qOutValid with
  | true => simp [held, valid, after, srcFab]
  | false => simp [held, valid, srcFab, fUnpackRbufContents, addrBehind]

/-- What is shown in a cycle and what is held behind it is what was held and what is written. -/
theorem decode_step : fabEvents s.srcFab ++ decode (s.step i).outCurAddr (held (s.step i)) =
    decode s.outCurAddr (held s) ++ decode (after s.outCurAddr (held s)) (s.qIn i).toList := by
  rw [held_step, outCurAddr_step, decode_append, decode_held, after_held, List.append_assoc]

theorem after_step : after (s.step i).outCurAddr (held (s.step i)) =
    after (after s.outCurAddr (held s)) (s.qIn i).toList := by
  rw [held_step, outCurAddr_step, after_append, after_held]

end Reader

/-! ### The writer -/

def marker (sof eof error : Bool) : BitVec 18 :=
  0b11#2 ++ BitVec.ofBool sof ++ BitVec.ofBool eof ++ BitVec.ofBool error ++ 0#13

theorem unpack_marker (sof eof error : Bool) (addr : BitVec 2) (some : (sof || eof || error) = true) :
    fabEvents (fUnpackRbufContents (marker sof eof error) addr true) =
        (if sof then [Event.sof] else []) ++ (if eof || error then [Event.ending eof error] else []) ∧
      addrBehind (fUnpackRbufContents (marker sof eof error) addr true) = cWrfStatus := by
  revert sof eof error addr
  decide

/-- A word's entry. -/
def wordEntry (addr : BitVec 2) (w : Word) : BitVec 18 :=
  (if addr != w.addr then 0b10#2 else 0#1 ++ BitVec.ofBool w.bytesel) ++ w.data

/-- A word as it is stored behind one with the given address: the mark of a new address leaves no room for bytesel. -/
def stored (addr : BitVec 2) (w : Word) : Word := ⟨w.addr, w.data, w.bytesel && addr == w.addr⟩

theorem tagged_tag (tag : BitVec 2) (data : BitVec 16) :
    BitVec.extractLsb' (n := 18) 16 2 (tag ++ data) = tag := by
  apply BitVec.eq_of_getLsbD_eq
  intro k inside
  rw [BitVec.getLsbD_extractLsb', tagged_bit]
  simp [inside]

theorem unpack_tagged (tag : BitVec 2) (data : BitVec 16) (addr : BitVec 2) :
    let high := tag.getLsbD 1
    let low := tag.getLsbD 0
    fUnpackRbufContents (tag ++ data) addr true =
      { data
        addr := if tag == 0b10 then if addr == 0 then cWrfOob else 0 else addr
        dvalid := !high || (high && !low)
        sof := data.getLsbD 15 && high && low
        eof := data.getLsbD 14 && high && low
        error := data.getLsbD 13 && high && low
        bytesel := !high && low } := by
  simp only [fUnpackRbufContents, tagged_tag, tagged_bit, tagged_data]
  rfl

theorem unpack_word (v w : Word) (follows : Follows v w) :
    fabEvents (fUnpackRbufContents (wordEntry v.addr w) v.addr true) = [.word (stored v.addr w)] ∧
      addrBehind (fUnpackRbufContents (wordEntry v.addr w) v.addr true) = w.addr := by
  obtain same | other := eq_or_ne v.addr w.addr
  · have entry : wordEntry v.addr w = (0#1 ++ BitVec.ofBool w.bytesel : BitVec 2) ++ w.data := by
      simp [wordEntry, same]
    rw [entry, unpack_tagged]
    cases odd : w.bytesel <;> simp [fabEvents, addrBehind, fabWord, stored, same, odd]
  · have entry : wordEntry v.addr w = 0b10#2 ++ w.data := by simp [wordEntry, other]
    have addr : (if v.addr == 0 then cWrfOob else 0) = w.addr := by
      rcases follows.2 with ⟨status, one | one⟩ | ⟨data, ⟨one, -⟩ | one⟩ | ⟨oob, one⟩ <;>
        simp_all [cWrfStatus, cWrfData, cWrfOob]
    rw [entry, unpack_tagged]
    simpa [fabEvents, addrBehind, fabWord, stored, other] using addr

/-- A frame's words as they are stored behind `v`. -/
def storedAll : Word → List Word → List Word
  | _, [] => []
  | v, w :: rest => stored v.addr w :: storedAll w rest

section Words

variable {v w : Word} {words : List Word}

theorem storedAll_snoc (v : Word) (words : List Word) (w : Word) :
    storedAll v (words ++ [w]) = storedAll v words ++ [stored (words.getLastD v).addr w] := by
  induction words generalizing v with
  | nil => rfl
  | cons u rest ih =>
      simp only [List.cons_append, storedAll, ih]
      rw [List.getLastD_cons]

theorem formed_snoc (v : Word) (words : List Word) (w : Word) :
    Formed v (words ++ [w]) ↔ Formed v words ∧ Follows (words.getLastD v) w := by
  induction words generalizing v with
  | nil => simp [Formed]
  | cons u rest ih =>
      simp only [List.cons_append, Formed, ih]
      rw [List.getLastD_cons, and_assoc]

theorem storedAll_map (v : Word) (words : List Word) :
    (storedAll v words).map (fun w => (w.addr, w.data)) = words.map (fun w => (w.addr, w.data)) := by
  induction words generalizing v with
  | nil => rfl
  | cons w rest ih => simp only [storedAll, List.map_cons, ih, stored]

theorem oob_only (formed : Formed v words) (oob : v.addr = cWrfOob) : words.filter (·.addr == cWrfData) = [] := by
  induction words generalizing v with
  | nil => rfl
  | cons w rest ih =>
      have next : w.addr = cWrfOob := by
        rcases formed.1.2 with ⟨other, -⟩ | ⟨other, -⟩ | ⟨-, next⟩
        · exact absurd (oob.symm.trans other) (by decide)
        · exact absurd (oob.symm.trans other) (by decide)
        · exact next
      rw [List.filter_cons_of_neg (by rw [next]; decide), ih formed.2 next]

theorem stored_same (follows : Follows v w) (behind : w.addr = cWrfData → v.addr = cWrfData) : stored v.addr w =
    w := by
  have kept : (w.bytesel && v.addr == w.addr) = w.bytesel := by
    cases odd : w.bytesel with
    | false => rfl
    | true =>
        have data := follows.1 odd
        simp [data, behind data]
  simp only [stored, kept]

/-- Behind the first DATA word nothing is lost. -/
theorem storedAll_behind (formed : Formed v words) (behind : v.addr ≠ cWrfStatus) : storedAll v words = words := by
  induction words generalizing v with
  | nil => rfl
  | cons w rest ih =>
      have next : w.addr ≠ cWrfStatus ∧ (w.addr = cWrfData → v.addr = cWrfData) := by
        rcases formed.1.2 with ⟨status, -⟩ | ⟨data, ⟨one, -⟩ | one⟩ | ⟨-, one⟩
        · exact absurd status behind
        · exact ⟨by rw [one]; decide, fun _ => data⟩
        · exact ⟨by rw [one]; decide, fun _ => data⟩
        · exact ⟨by rw [one]; decide, fun other => absurd (one.symm.trans other) (by decide)⟩
      rw [storedAll, stored_same formed.1 next.2, ih formed.2 next.1]

theorem storedAll_front (formed : Formed v words) (status : v.addr = cWrfStatus) (more : ¬Single words) :
    storedAll v words = words := by
  induction words generalizing v with
  | nil => rfl
  | cons w rest ih =>
      rcases formed.1.2 with ⟨-, one | one⟩ | ⟨other, -⟩ | ⟨other, -⟩
      · have skip : (w :: rest).filter (·.addr == cWrfData) = rest.filter (·.addr == cWrfData) :=
          List.filter_cons_of_neg (by rw [one]; decide)
        have same := stored_same formed.1 (fun data => absurd (one.symm.trans data) (by decide))
        rw [storedAll, same, ih formed.2 one (by simpa only [Single, skip] using more)]
      · have even : w.bytesel = false := by
          by_contra odd
          refine more ⟨w, ?_, by simpa using odd⟩
          rw [List.filter_cons_of_pos (by rw [one]; decide)]
          cases rest with
          | nil => rfl
          | cons u rest =>
              have oob : u.addr = cWrfOob := by
                rcases formed.2.1.2 with ⟨other, -⟩ | ⟨-, ⟨-, even⟩ | next⟩ | ⟨other, -⟩
                · exact absurd (one.symm.trans other) (by decide)
                · exact absurd even odd
                · exact next
                · exact absurd (one.symm.trans other) (by decide)
              rw [List.filter_cons_of_neg (by rw [oob]; decide), oob_only formed.2.2 oob]
        have same : stored v.addr w = w := by rw [stored, even, Bool.false_and, ← even]
        rw [storedAll, same, storedAll_behind formed.2 (by rw [one]; decide)]
      · exact absurd (status.symm.trans other) (by decide)
      · exact absurd (status.symm.trans other) (by decide)

theorem agree_stored (formed : Formed lead words) : Agree (storedAll lead words) words :=
  ⟨storedAll_map lead words, storedAll_front formed rfl⟩

end Words

/-! ### Edges -/

section Writer

variable {s : RxBuffer} {i : RxBufferIn}

theorem qIn_sof (state : s.state = .waitFrame) (sof : i.snkFab.sof = true) (others : ends i = false)
    (stored : (s.qDrop || i.dropReq) = false) : s.qIn i = some (marker true false false) := by
  simp only [ends, Bool.or_eq_false_iff] at others
  simp [qIn, pEncodeFifoIn, fPackRbufContents, marker, state, sof, stored, others]

theorem qIn_wait (state : s.state = .waitFrame) (skipped : (i.snkFab.sof && !(s.qDrop || i.dropReq)) = false) :
    s.qIn i = none := by
  simp only [qIn, pEncodeFifoIn, fPackRbufContents, state, skipped]
  simp

theorem qIn_cut (state : s.state = .data) (sof : i.snkFab.sof = false) (full : s.qDrop = true) :
    s.qIn i = some (marker false i.snkFab.eof true) := by
  simp [qIn, pEncodeFifoIn, fPackRbufContents, marker, state, sof, full]

theorem qIn_end (state : s.state = .data) (sof : i.snkFab.sof = false) (room : s.qDrop = false)
    (last : ends i = true) : s.qIn i = some (marker false i.snkFab.eof i.snkFab.error) := by
  have either : (i.snkFab.error || i.snkFab.eof) = true := by rw [Bool.or_comm]; exact last
  simp only [qIn, pEncodeFifoIn, fPackRbufContents, marker, state, sof, room]
  simp [either]

theorem qIn_word (state : s.state = .data) (sof : i.snkFab.sof = false) (room : s.qDrop = false)
    (others : ends i = false) (word : i.snkFab.dvalid = true) :
    s.qIn i = some (wordEntry s.inPrevAddr (fabWord i.snkFab)) := by
  simp only [ends, Bool.or_eq_false_iff] at others
  simp [qIn, pEncodeFifoIn, fPackRbufContents, wordEntry, fabWord, state, sof, room, others, word]

theorem qIn_gap (state : s.state = .data) (sof : i.snkFab.sof = false) (room : s.qDrop = false)
    (others : ends i = false) (word : i.snkFab.dvalid = false) : s.qIn i = none := by
  simp only [ends, Bool.or_eq_false_iff] at others
  simp [qIn, pEncodeFifoIn, fPackRbufContents, state, sof, room, others, word]

end Writer

/-- Three entries are left when frames are to stop, for the one that is written then, and the marker. -/
structure Room (size : Nat) (s : RxBuffer) : Prop where
  taking : s.qDrop = false → s.fifo.length ≤ size - 3
  cutting : s.state = .data → s.fifo.length ≤ size - 2

section Rooms

variable {size : Nat} {s : RxBuffer} {i : RxBufferIn}

theorem fifo_step : (s.step i).fifo.length ≤ s.fifo.length + 1 := by
  have written : (s.qIn i).toList.length ≤ 1 := by cases s.qIn i <;> simp
  have kept : (if s.qRd i then s.fifo.tail else s.fifo).length ≤ s.fifo.length := by
    split
    · exact List.length_tail ▸ Nat.sub_le _ _
    · exact Nat.le_refl _
  simp only [step, List.length_append]
  omega

theorem room_step (big : 16 ≤ size) (room : Room size s) (flags : Flags size s i) : Room size (s.step i) := by
  have more := fifo_step (s := s) (i := i)
  constructor
  · intro next
    have low : i.qAfull = false := by
      have either : (i.qAfull || (s.qDrop && !i.qAempty)) = false := next
      exact (Bool.or_eq_false_iff.1 either).1
    rw [flags.qAfull, decide_eq_false_iff_not] at low
    omega
  · intro next
    have takes : s.qDrop = false := by
      by_contra full
      cases state : s.state <;> simp [step, pFifoWrite, state, full] at next
    have := room.taking takes
    omega

/-- Whatever is written finds the FIFO with more than one free entry. -/
theorem room_left (big : 16 ≤ size) (room : Room size s) (written : (s.qIn i).isSome = true) :
    s.fifo.length + 1 < size := by
  cases state : s.state with
  | data =>
      have := room.cutting state
      omega
  | waitFrame =>
      have taken : (i.snkFab.sof && !(s.qDrop || i.dropReq)) = true := by
        by_contra skipped
        rw [qIn_wait state (by simpa using skipped)] at written
        exact Bool.false_ne_true written
      simp only [Bool.and_eq_true, Bool.not_eq_true', Bool.or_eq_false_iff] at taken
      have := room.taking taken.2.1
      omega

end Rooms

/-! ### Runs -/

/-- A frame that is let through: all its words are stored, and the address behind them is known on both sides. -/
structure Stores (s : RxBuffer) (b : Book) (words : List Word) (events : List Event) : Prop where
  state : s.state = .data
  coming : b.coming = some words
  formed : Formed lead words
  events : events = opening (storedAll lead words)
  reader : after s.outCurAddr (held s) = (words.getLastD lead).addr
  writer : s.inPrevAddr = (words.getLastD lead).addr

/-- Between frames, and while what is left of one is skipped. -/
structure Skips (s : RxBuffer) (b : Book) (events : List Event) : Prop where
  state : s.state = .waitFrame
  cut : events = [] ∨ ∃ words ∈ b.coming, ∃ front, front <+: words ∧ Formed lead front ∧
    events = Frame.events ⟨storedAll lead front, false, true⟩

/-- What was shown and what is held is what became of the frames. -/
def Kept (s : RxBuffer) (b : Book) : Prop :=
  ∃ fates events, List.Forall₂ Fate b.done fates ∧
    b.shown ++ decode s.outCurAddr (held s) = fateEvents fates ++ events ∧
    ((∃ words, Stores s b words events) ∨ Skips s b events)

section Edge

variable {size : Nat} {s : RxBuffer} {b : Book} {i : RxBufferIn} {words : List Word} {events : List Event}

theorem total_step : (b.next s i).shown ++ decode (s.step i).outCurAddr (held (s.step i)) =
    (b.shown ++ decode s.outCurAddr (held s)) ++ decode (after s.outCurAddr (held s)) (s.qIn i).toList := by
  rw [Book.next, List.append_assoc, decode_step, ← List.append_assoc]

theorem total_none (quiet : s.qIn i = none) : (b.next s i).shown ++ decode (s.step i).outCurAddr (held (s.step i)) =
    b.shown ++ decode s.outCurAddr (held s) := by
  rw [total_step, quiet]
  exact List.append_nil _

theorem total_marker {sof eof error : Bool} (some : (sof || eof || error) = true)
    (written : s.qIn i = .some (marker sof eof error)) :
    (b.next s i).shown ++ decode (s.step i).outCurAddr (held (s.step i)) =
      (b.shown ++ decode s.outCurAddr (held s)) ++
      ((if sof then [Event.sof] else []) ++ (if eof || error then [Event.ending eof error] else [])) := by
  rw [total_step, written, Option.toList_some, decode, decode, (unpack_marker sof eof error _ some).1,
    List.append_nil]

theorem fateEvents_snoc (fates : List (Option Frame)) (fate : Option Frame) :
    fateEvents (fates ++ [fate]) = fateEvents fates ++ (fate.map Frame.events).getD [] := by
  simp [fateEvents]

/-- A frame that ends, with its fate. -/
theorem done_end {fates : List (Option Frame)} (all : List.Forall₂ Fate b.done fates) (last : ends i = true)
    (coming : b.coming = some words) {fate : Option Frame}
    (here : Fate ⟨words, i.snkFab.eof, i.snkFab.error⟩ fate) :
    List.Forall₂ Fate (b.next s i).done (fates ++ [fate]) := by
  have done : (b.next s i).done = b.done ++ [⟨words, i.snkFab.eof, i.snkFab.error⟩] := by
    simp [Book.next, last, coming]
  rw [done]
  exact List.rel_append all (.cons here .nil)

theorem done_on (last : ends i = false) : (b.next s i).done = b.done := by simp [Book.next, last]

theorem sof_none (frames : Frames b i) (coming : b.coming = some words) : i.snkFab.sof = false := by
  by_contra sof
  exact absurd ((frames.sof (by simpa using sof)).1.symm.trans coming) (by simp)

/-- What a frame has behind the edge, if it goes on. -/
theorem coming_on (frames : Frames b i) (coming : b.coming = some words) (last : ends i = false) :
    ∃ more, (b.next s i).coming = some (words ++ more) := by
  have sof := sof_none frames coming
  cases word : i.snkFab.dvalid with
  | true => exact ⟨[fabWord i.snkFab], by simp [Book.next, sof, word, coming]⟩
  | false => exact ⟨[], by simp [Book.next, sof, word, coming, last]⟩

theorem stores_cut {fates : List (Option Frame)} (all : List.Forall₂ Fate b.done fates)
    (total : b.shown ++ decode s.outCurAddr (held s) = fateEvents fates ++ events)
    (stores : Stores s b words events) (frames : Frames b i) (full : s.qDrop = true) : Kept (s.step i)
      (b.next s i) := by
  have sof := sof_none frames stores.coming
  have state : (s.step i).state = .waitFrame := by simp [step, pFifoWrite, stores.state, full]
  have next := total_marker (b := b) (by simp) (qIn_cut stores.state sof full)
  simp only [Bool.or_true, if_true, Bool.false_eq_true, if_false, List.nil_append] at next
  rw [total, stores.events] at next
  cases last : ends i with
  | true =>
      refine ⟨fates ++ [some ⟨storedAll lead words, i.snkFab.eof, true⟩], [], ?_, ?_, .inr ⟨state, .inl rfl⟩⟩
      · refine done_end all last stores.coming ⟨words, List.prefix_rfl, agree_stored stores.formed, .inr ⟨rfl, ?_⟩⟩
        exact fun _ => rfl
      · rw [next, fateEvents_snoc]
        simp [Frame.events]
  | false =>
      have eof : i.snkFab.eof = false := (Bool.or_eq_false_iff.1 last).1
      obtain ⟨more, coming⟩ := coming_on (s := s) frames stores.coming last
      refine ⟨fates, Frame.events ⟨storedAll lead words, false, true⟩, by rwa [done_on last], ?_,
        .inr ⟨state, .inr ⟨words ++ more, coming, words, List.prefix_append _ _, stores.formed, rfl⟩⟩⟩
      rw [next, eof, Frame.events, List.append_assoc]

theorem stores_end {fates : List (Option Frame)} (all : List.Forall₂ Fate b.done fates)
    (total : b.shown ++ decode s.outCurAddr (held s) = fateEvents fates ++ events)
    (stores : Stores s b words events) (frames : Frames b i) (room : s.qDrop = false) (last : ends i = true) :
    Kept (s.step i) (b.next s i) := by
  have sof := sof_none frames stores.coming
  have flags : (i.snkFab.eof || i.snkFab.error) = true := last
  have state : (s.step i).state = .waitFrame := by
    simp only [step, pFifoWrite, stores.state, room, Bool.false_or, flags, if_true]
  have next := total_marker (b := b) (by simpa using flags) (qIn_end stores.state sof room last)
  rw [total, stores.events, flags] at next
  refine ⟨fates ++ [some ⟨storedAll lead words, i.snkFab.eof, i.snkFab.error⟩], [], ?_, ?_, .inr ⟨state, .inl rfl⟩⟩
  · exact done_end all last stores.coming
      ⟨words, List.prefix_rfl, agree_stored stores.formed, .inl ⟨rfl, rfl, rfl⟩⟩
  · rw [next, fateEvents_snoc]
    simp [Frame.events]

theorem stores_on {fates : List (Option Frame)} (all : List.Forall₂ Fate b.done fates)
    (total : b.shown ++ decode s.outCurAddr (held s) = fateEvents fates ++ events)
    (stores : Stores s b words events) (frames : Frames b i) (room : s.qDrop = false) (last : ends i = false) :
    Kept (s.step i) (b.next s i) := by
  have sof := sof_none frames stores.coming
  have flags : (i.snkFab.eof || i.snkFab.error) = false := last
  have state : (s.step i).state = .data := by
    simp only [step, pFifoWrite, stores.state, room, Bool.false_or, flags]
    rfl
  cases word : i.snkFab.dvalid with
  | true =>
      obtain ⟨-, ws, here, follows⟩ := frames.word word
      obtain rfl : words = ws := Option.some.inj (stores.coming.symm.trans here)
      have written := qIn_word stores.state sof room last word
      rw [stores.writer] at written
      obtain ⟨seen, behind⟩ := unpack_word _ _ follows
      refine ⟨fates, opening (storedAll lead (words ++ [fabWord i.snkFab])), by rwa [done_on last], ?_,
        .inl ⟨words ++ [fabWord i.snkFab], state, by simp [Book.next, sof, word, stores.coming], ?_, rfl, ?_, ?_⟩⟩
      · rw [total_step, total, written, stores.reader, Option.toList_some, decode, decode, seen, stores.events,
          storedAll_snoc]
        simp [opening]
      · exact (formed_snoc _ _ _).2 ⟨stores.formed, follows⟩
      · rw [after_step, written, stores.reader, Option.toList_some, after, after, behind]
        simp
      · simp [step, pFifoWrite, stores.state, word, fabWord]
  | false =>
      have quiet := qIn_gap stores.state sof room last word
      refine ⟨fates, events, by rwa [done_on last], by rw [total_none quiet, total],
        .inl ⟨words, state, by simp [Book.next, sof, word, last, stores.coming], stores.formed, stores.events, ?_,
          ?_⟩⟩
      · rw [after_step, quiet, Option.toList_none, after, stores.reader]
      · simp [step, pFifoWrite, stores.state, word, stores.writer]

theorem skips_sof {fates : List (Option Frame)} (all : List.Forall₂ Fate b.done fates)
    (total : b.shown ++ decode s.outCurAddr (held s) = fateEvents fates ++ events)
    (skips : Skips s b events) (frames : Frames b i) (sof : i.snkFab.sof = true)
    (taken : (s.qDrop || i.dropReq) = false) : Kept (s.step i) (b.next s i) := by
  obtain ⟨none, word, last⟩ := frames.sof sof
  have nothing : events = [] := by
    rcases skips.cut with nothing | ⟨words, coming, -⟩
    · exact nothing
    · exact absurd (none.symm.trans coming) (by simp)
  have written := qIn_sof skips.state sof last taken
  have next := total_marker (b := b) (by rfl) written
  have flags := Bool.or_eq_false_iff.1 taken
  refine ⟨fates, opening [], by rwa [done_on last], ?_, .inl ⟨[], ?_, ?_, trivial, rfl, ?_, ?_⟩⟩
  · rw [next, total, nothing, List.append_nil]
    rfl
  · simp [step, pFifoWrite, skips.state, sof, flags]
  · simp [Book.next, sof]
  · rw [after_step, written, Option.toList_some, after, after, (unpack_marker true false false _ rfl).2]
    rfl
  · simp [step, pFifoWrite, skips.state, lead]

theorem skips_on {fates : List (Option Frame)} (all : List.Forall₂ Fate b.done fates)
    (total : b.shown ++ decode s.outCurAddr (held s) = fateEvents fates ++ events)
    (skips : Skips s b events) (frames : Frames b i)
    (skipped : (i.snkFab.sof && !(s.qDrop || i.dropReq)) = false) : Kept (s.step i) (b.next s i) := by
  have quiet := qIn_wait skips.state skipped
  have rests : (i.snkFab.sof && !s.qDrop && !i.dropReq) = false := by
    rw [Bool.and_assoc, ← Bool.not_or]
    exact skipped
  have state : (s.step i).state = .waitFrame := by
    simp only [step, pFifoWrite, skips.state, rests]
    rfl
  have next := total_none (b := b) quiet
  rw [total] at next
  cases last : ends i with
  | true =>
      obtain ⟨-, words, coming, -⟩ := frames.ends last
      rcases skips.cut with rfl | ⟨ws, here, front, inside, formed, rfl⟩
      · refine ⟨fates ++ [none], [], done_end all last coming trivial, ?_, .inr ⟨state, .inl rfl⟩⟩
        rw [next, fateEvents_snoc, Option.map_none, Option.getD_none, List.append_nil, List.append_nil]
      · obtain rfl : words = ws := Option.some.inj (coming.symm.trans here)
        refine ⟨fates ++ [some ⟨storedAll lead front, false, true⟩], [], done_end all last coming ?_, ?_,
          .inr ⟨state, .inl rfl⟩⟩
        · exact ⟨front, inside, agree_stored formed, .inr ⟨rfl, fun eof => absurd eof Bool.false_ne_true⟩⟩
        · rw [next, fateEvents_snoc, List.append_nil]
          rfl
  | false =>
      refine ⟨fates, events, by rwa [done_on last], next, .inr ⟨state, ?_⟩⟩
      rcases skips.cut with nothing | ⟨words, coming, front, inside, formed, shown⟩
      · exact .inl nothing
      · obtain ⟨more, later⟩ := coming_on (s := s) frames coming last
        exact .inr ⟨words ++ more, later, front, inside.trans (List.prefix_append _ _), formed, shown⟩

theorem kept_step (kept : Kept s b) (frames : Frames b i) : Kept (s.step i) (b.next s i) := by
  obtain ⟨fates, events, all, total, ⟨words, stores⟩ | skips⟩ := kept
  · cases full : s.qDrop with
    | true => exact stores_cut all total stores frames full
    | false =>
        cases last : ends i with
        | true => exact stores_end all total stores frames full last
        | false => exact stores_on all total stores frames full last
  · cases taken : i.snkFab.sof && !(s.qDrop || i.dropReq) with
    | true =>
        rw [Bool.and_eq_true, Bool.not_eq_true'] at taken
        exact skips_sof all total skips frames taken.1 taken.2
    | false => exact skips_on all total skips frames taken

end Edge

theorem begun_kept {s : RxBuffer} {b : Book} {events : List Event}
    (now : (∃ words, Stores s b words events) ∨ Skips s b events) : Begun b.coming events := by
  rcases now with ⟨words, stores⟩ | skips
  · exact .inr ⟨words, stores.coming, words, _, List.prefix_rfl, agree_stored stores.formed, .inl
    ⟨rfl, stores.events⟩⟩
  · rcases skips.cut with nothing | ⟨words, coming, front, inside, formed, shown⟩
    · exact .inl nothing
    · exact .inr ⟨words, coming, front, _, inside, agree_stored formed, .inr shown⟩

/-- What has come out, of the frames in their order: all of it once nothing is held. -/
def Accounted (s : RxBuffer) (b : Book) : Prop :=
  ∃ fates events, List.Forall₂ Fate b.done fates ∧ Begun b.coming events ∧
    b.shown <+: fateEvents fates ++ events ∧ (held s = [] → b.shown = fateEvents fates ++ events)

theorem Kept.accounted {s : RxBuffer} {b : Book} (kept : Kept s b) : Accounted s b := by
  obtain ⟨fates, events, all, total, now⟩ := kept
  refine ⟨fates, events, all, begun_kept now, ⟨_, total⟩, fun empty => ?_⟩
  rw [← total, empty, decode, List.append_nil]

/-- Whatever is written finds room. -/
def Fits (size : Nat) (s : RxBuffer) (i : RxBufferIn) : Prop := (s.qIn i).isSome = true → s.fifo.length + 1 < size

def Surrounds (size : Nat) (p : RxBuffer × Book) (i : RxBufferIn) : Prop := Frames p.2 i ∧ Flags size p.1 i

instance (size : Nat) (p : RxBuffer × Book) (i : RxBufferIn) : Decidable (Surrounds size p i) :=
  inferInstanceAs (Decidable (_ ∧ _))

theorem kept_start {s : RxBuffer} (start : AfterReset s) : Kept s {} := by
  refine ⟨[], [], .nil, ?_, .inr ⟨start.state, .inl rfl⟩⟩
  simp [held, start.qOutValid, start.fifo, decode, fateEvents]

theorem room_start {size : Nat} {s : RxBuffer} (start : AfterReset s) : Room size s := by
  constructor <;> intro <;> simp [start.fifo]

theorem frames_whole_or_flagged (size : Nat) (big : 16 ≤ size) (s : RxBuffer) (start : AfterReset s)
    (inputs : List RxBufferIn) (surrounds : Along stepBook (Surrounds size) (s, {}) inputs) :
    let last := run stepBook (s, {}) inputs
    Accounted last.1 last.2 ∧ Along stepBook (fun p i => Fits size p.1 i) (s, {}) inputs := by
  have kept : ∀ p i, Kept p.1 p.2 ∧ Room size p.1 → Surrounds size p i →
      Kept (stepBook p i).1 (stepBook p i).2 ∧ Room size (stepBook p i).1 :=
    fun p i here now => ⟨kept_step here.1 now.1, room_step big here.2 now.2⟩
  have first : Kept s {} ∧ Room size s := ⟨kept_start start, room_start start⟩
  have fits : Along stepBook (fun p i => Fits size p.1 i) (s, {}) inputs :=
    surrounds.yields _ kept (fun p i here _ => room_left big here.2) first
  exact ⟨(surrounds.invariant (fun p => Kept p.1 p.2 ∧ Room size p.1) kept first).1.accounted, fits⟩

/-- Two frames, the second of them refused. -/
def refused : List RxBufferIn :=
  [{ snkFab := { sof := true } }, { snkFab := { dvalid := true, addr := 2, data := 0x0200 } }, { srcDreq := false },
    { snkFab := { dvalid := true, data := 0x1234 } },
      { snkFab := { dvalid := true, data := 0x5600, bytesel := true } },
    { snkFab := { dvalid := true, addr := 1, data := 0x0101 } }, { snkFab := { eof := true } },
    { snkFab := { sof := true }, dropReq := true }, { snkFab := { dvalid := true } }, { snkFab := { eof := true } },
      {}]

theorem frames_whole_or_flagged_refused :
    let last := run stepBook (({} : RxBuffer), {}) refused
    Accounted last.1 last.2 ∧ Along stepBook (fun p i => Fits 16 p.1 i) ({}, {}) refused :=
  frames_whole_or_flagged 16 (by decide) {} (by decide) refused (by decide)

/-- A cut frame without its last word, always. -/
def Shortened (f : Frame) : Option Frame → Prop
  | none => True
  | some shown => shown = f ∨ ∃ front, front <+: f.words ∧ front ≠ f.words ∧ shown = ⟨front, false, true⟩

theorem events_inj {f g : Frame} (same : f.events = g.events) : f = g := by
  obtain ⟨front, last⟩ := List.append_inj' same rfl
  have words : f.words = g.words := by
    refine List.map_injective_iff.2 (fun v w here => ?_) (List.cons.inj front).2
    exact Event.word.inj here
  obtain ⟨eof, error⟩ := Event.ending.inj (List.cons.inj last).1
  cases f
  cases g
  simp_all

/-- Nothing is read while twelve words come; the thirteenth entry stops the buffer before the eof is there. -/
def crowded : List RxBufferIn :=
  { snkFab := { sof := true }, srcDreq := false } ::
    List.replicate 12 { snkFab := { dvalid := true }, srcDreq := false } ++
    (List.replicate 2 { srcDreq := false, qAfull := true } ++
      ({ snkFab := { eof := true }, srcDreq := false, qAfull := true } ::
        List.replicate 2 { qAfull := true } ++ List.replicate 14 ({} : RxBufferIn)))

theorem flagged_whole :
    let last := run stepBook (({} : RxBuffer), {}) crowded
    Along stepBook (Surrounds 16) (({} : RxBuffer), {}) crowded ∧ last.2.coming = none ∧ held last.1 = [] ∧
      ¬∃ fates, List.Forall₂ Shortened last.2.done fates ∧ last.2.shown = fateEvents fates := by
  let words : List Word := List.replicate 12 ⟨0, 0, false⟩
  have done : (run stepBook (({} : RxBuffer), {}) crowded).2.done = [⟨words, true, false⟩] := by decide
  have shown : (run stepBook (({} : RxBuffer), {}) crowded).2.shown = Frame.events ⟨words, false, true⟩ := by decide
  refine ⟨by decide, by decide, by decide, ?_⟩
  rintro ⟨fates, all, same⟩
  rw [done] at all
  rw [shown] at same
  cases all with
  | cons here rest =>
      cases rest
      rename_i fate
      cases fate with
      | none => exact absurd same (by simp [Frame.events, opening, fateEvents])
      | some g =>
          have cut : ⟨words, false, true⟩ = g := events_inj (by simpa [fateEvents] using same)
          rcases here with whole | ⟨front, -, shorter, flagged⟩
          · exact absurd (cut.trans whole) (by decide)
          · exact shorter (congrArg Frame.words (cut.trans flagged)).symm

end WrCores.Endpoint.RxBuffer
