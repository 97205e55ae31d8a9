import WrCores.Fabric.Loopback

/-!
What the loopback forwards. A book goes along with a run: the words of the frame being received and those of them
the frame FIFO took, the frames whose sizes were given to the size FIFO, how many sizes the transmitter has taken,
the words popped, and everything the source has shown. The transmitter trusts the sizes, so all rests on the
receiver: what was refused must be what the size does not count.
-/

namespace WrCores.Fabric.Loopback

open Clocked

/-- A frame entered in the size FIFO: its data words, those stored, and the size. -/
structure Frame where
  received : List Word
  kept : List Word
  size : BitVec 16
  deriving DecidableEq, Repr

/-- `word n w forced`: with `n` in `tx_cnt`, `w` at the output of the frame FIFO, and `forced` sent in its place. -/
inductive Event where
  | sof
  | word (n : BitVec 4) (w : Word) (forced : Option Word)
  | eof
  deriving DecidableEq, Repr

namespace Event

def plain : Event → Event
  | .word n w _ => .word n w none
  | event => event

def Allowed : Event → Prop
  | .word n _ forced => forced.isSome = true → n.toNat ≤ 3
  | _ => True

end Event

namespace Frame

variable (f : Frame)

/-- Which of the words kept stands at a place of the frame sent: the words 4 to 6 of the frame are the destination;
the next one stands in the place of the source, and is then sent itself. -/
def place (j : Nat) : Nat := max (min j 3) (j - 3)

def wordEvent (j : Nat) : Event := .word (BitVec.ofNat 4 (min (j + 1) 15)) (f.kept.getD (place j) 0) none

def wordEvents (n : Nat) : List Event := (List.range n).map f.wordEvent

def events : List Event := .sof :: f.wordEvents (f.kept.length + 3) ++ [.eof]

/-- Its own words from the fourth on, all or the first of them, and the size that announces them. -/
structure Sound : Prop where
  own : f.kept <+: f.received.drop 3
  long : 4 ≤ f.kept.length
  size : (f.size.toNat + 1) / 2 = f.kept.length + 3

theorem wordEvents_succ (n : Nat) : f.wordEvents (n + 1) = f.wordEvents n ++ [f.wordEvent n] := by
  simp [wordEvents, List.range_succ]

end Frame

/-- `low` counts the cycles since `cyc` was high, `odd` says that a word of one byte has come, and `refused` that
the last word handed to the frame FIFO was refused while the size counts it. -/
structure Book where
  low : Nat
  odd : Bool
  received : List Word
  kept : List Word
  refused : Bool
  entered : List Frame
  taken : Nat
  popped : List Word
  sent : List Event
  deriving DecidableEq, Repr

def Book.start : Book := ⟨2, false, [], [], false, [], 0, [], []⟩

namespace State

variable (s : State) (i : In)

/-- What the source shows in a cycle. -/
def shown (forced : Option Word) : List Event :=
  (if s.sof then [Event.sof] else []) ++ ((if s.dvalid then [Event.word s.txCnt s.frameOut forced] else []) ++
    if s.eof then [Event.eof] else [])

/-- The word at the input of the frame FIFO. -/
def handed : List Word := if s.frameWr then [s.frameIn] else []

def stored : List Word := if s.frameWr && !s.ffifoFull then [s.frameIn] else []

def drawn : List Word := if s.frameRd then s.frameFifo.take 1 else []

/-- The queued sizes, with the one at the input of the size FIFO. -/
def announced : List (BitVec 16) := s.sizeFifo ++ if s.fsizeWr then [s.fsizeIn] else []

end State

namespace Book

variable (b : Book) (s : State) (i : In)

def refusing : Bool := b.refused || s.frameWr && s.ffifoFull

def next : Book where
  low := if i.cyc then 0 else b.low + 1
  odd := i.cyc && (b.odd || State.fwordValid i && decide (i.sel = 2))
  received := (if 0 < b.low then [] else b.received) ++ if State.fwordValid i then [i.dat] else []
  kept := (if 0 < b.low then [] else b.kept) ++ s.stored
  refused := decide (s.rx = .payload) && !(s.stores i && s.ffifoFull) && b.refusing s
  entered := if s.writesSize then b.entered ++ [⟨b.received, b.kept, s.fsize⟩] else b.entered
  taken := if s.fsizeRd then b.taken + 1 else b.taken
  popped := b.popped ++ s.drawn
  sent := b.sent ++ s.shown (s.forced i)

/-- What has been shown, with this cycle, and what would stand there if nothing were forced. -/
def heard : List Event := b.sent.map Event.plain ++ s.shown none

end Book

def stepBook (sb : State × Book) (i : In) : State × Book := (sb.1.step i, sb.2.next sb.1 i)

/-- Frame after frame comes in: whole words, of which the last may be half of one, seven or more, and `cyc` low for two
cycles between them. -/
structure Frames (b : Book) (i : In) : Prop where
  whole : State.fwordValid i = true → (i.sel = 3 ∨ i.sel = 2) ∧ b.odd = false
  seven : b.low = 0 → i.cyc = false → 7 ≤ b.received.length
  apart : i.cyc = true → b.low ≠ 1

/-- Where neither side loses count. The size is taken in the one cycle it is shown; no word comes with the rise of
`cyc`; a word meets the full frame FIFO just where the word before was refused, and none is the last to be refused; what
is left of a frame is nothing or seven words; the size FIFO takes the size. -/
structure Counts (s : State) (b : Book) (i : In) : Prop where
  taken : s.tx = .getSize → i.dreq = true
  later : 0 < b.low → State.fwordValid i = false
  body : s.rx = .payload → s.stores i = true → s.ffifoFull = b.refusing s
  last : s.rx = .payload → i.cyc = false → b.refusing s = false
  long : s.rx = .fend → s.fsize = 0 ∨ 12 < s.fsize
  entry : s.fsizeWr = true → s.sfifoFull = false

/-- The queues are in step: what goes out is, frame after frame, what was entered, and between the frames the
queues hold the frames that have not gone out, neither more nor less. -/
structure InStep (s : State) (b : Book) : Prop where
  sound : ∀ f ∈ b.entered, f.Sound
  popped : b.popped <+: b.entered.flatMap Frame.kept
  sent : b.sent.map Event.plain <+: b.entered.flatMap Frame.events
  forced : ∀ event ∈ b.sent, event.Allowed
  taken : b.taken ≤ b.entered.length
  between : s.tx = .idle → b.popped = (b.entered.take b.taken).flatMap Frame.kept ∧
    b.heard s = (b.entered.take b.taken).flatMap Frame.events
  queued : s.rx = .idle → s.tx = .idle → s.frameFifo = (b.entered.drop b.taken).flatMap Frame.kept ∧
    s.announced = (b.entered.drop b.taken).map Frame.size

/-! ### The receiver -/

/-- Within a frame every word after the third was stored, is at the input of the FIFO, or has just been refused. -/
structure Payload (s : State) (b : Book) (lost : List Word) : Prop where
  low : b.low = 0
  split : b.received.drop 3 = b.kept ++ (s.handed ++ lost)
  lost : lost.length = if b.refused then 1 else 0
  free : b.refused = true → s.frameWr = false
  size : s.fsize.toNat + (if b.odd then 1 else 0) = 2 * b.received.length
  room : b.received.length ≤ 3 → s.ffifoFull = false

/-- Nothing more is stored of this frame, and the size counts what was. -/
structure Counted (s : State) (b : Book) : Prop where
  own : b.kept <+: b.received.drop 3
  frameWr : s.frameWr = false
  refused : b.refused = false
  size : s.fsize = 0 ∧ b.kept = [] ∨ (s.fsize.toNat + 1) / 2 = b.kept.length + 3

structure Rests (s : State) (b : Book) : Prop where
  low : 2 ≤ b.low
  received : b.received = []
  kept : b.kept = []
  odd : b.odd = false
  frameWr : s.frameWr = false
  refused : b.refused = false
  size : s.fsize = 0

def Receives (s : State) (b : Book) : Prop :=
  match s.rx with
  | .idle => Rests s b
  | .payload => ∃ lost, Payload s b lost
  | .drop => b.low = 0 ∧ Counted s b
  | .fend => b.low = 1 ∧ Counted s b

section Edge

variable {s : State} {b : Book} {i : In} {lost : List Word}

theorem valid_cyc (valid : State.fwordValid i = true) : i.cyc = true := by
  simp only [State.fwordValid, Bool.and_eq_true] at valid
  exact valid.1.1

theorem stores_iff : s.stores i = true ↔ 4 < s.fsize ∧ State.fwordValid i = true := by
  simp [State.stores]

theorem stored_handed (room : s.frameWr = true → s.ffifoFull = false) : s.stored = s.handed := by
  cases wr : s.frameWr <;> simp [State.stored, State.handed, wr]
  exact room wr

theorem stored_quiet (wr : s.frameWr = false) : s.stored = [] := by simp [State.stored, wr]

theorem handed_quiet (wr : s.frameWr = false) : s.handed = [] := by simp [State.handed, wr]

/-- The frame FIFO does not fill up where nothing is handed to it. -/
theorem room_quiet (wr : s.frameWr = false) (room : s.ffifoFull = false) : (s.step i).ffifoFull = false := by
  simp only [State.ffifoFull, decide_eq_false_iff_not, not_le] at room ⊢
  have less : (s.step i).frameFifo.length ≤ s.frameFifo.length := by
    simp only [State.step, wr, Bool.false_and, Bool.false_eq_true, if_false, List.append_nil]
    split <;> simp
  omega

theorem rests_step (rests : Rests s b) (rx : s.rx = .idle) (counts : Counts s b i) :
    Receives (s.step i) (b.next s i) := by
  have low : 0 < b.low := by have := rests.low; omega
  have silent := counts.later low
  have wr : (s.step i).frameWr = false := by simp [State.step, State.writesFrame, rx]
  have size : (s.step i).fsize = 0 := by simp [State.step, State.nextFsize, rx, rests.size]
  have received : (b.next s i).received = [] := by simp [Book.next, low, silent]
  have kept : (b.next s i).kept = [] := by simp [Book.next, low, stored_quiet rests.frameWr]
  have odd : (b.next s i).odd = false := by simp [Book.next, rests.odd, silent]
  have refused : (b.next s i).refused = false := by simp [Book.next, rx]
  have counted : Counted (s.step i) (b.next s i) :=
    ⟨by rw [kept]; exact List.nil_prefix, wr, refused, .inl ⟨size, kept⟩⟩
  have next : (s.step i).rx = s.nextRx i := rfl
  cases cyc : i.cyc with
  | false =>
      have idle : (s.step i).rx = .idle := by simp [next, State.nextRx, rx, cyc]
      simp only [Receives, idle]
      exact ⟨by simp [Book.next, cyc]; omega, received, kept, odd, wr, refused, size⟩
  | true =>
      have nought : (b.next s i).low = 0 := by simp [Book.next, cyc]
      cases full : s.ffifoFull || s.sfifoFull with
      | true =>
          have drop : (s.step i).rx = .drop := by
            simp only [next, State.nextRx, rx, cyc, full, if_true]
          simp only [Receives, drop]
          exact ⟨nought, counted⟩
      | false =>
          have payload : (s.step i).rx = .payload := by
            simp only [next, State.nextRx, rx, cyc, full, if_true, if_false, Bool.false_eq_true]
          rw [Bool.or_eq_false_iff] at full
          simp only [Receives, payload]
          refine ⟨[], nought, ?_, ?_, ?_, ?_, ?_⟩
          · simp [received, kept, handed_quiet wr]
          · simp [refused]
          · simp [refused]
          · simp [size, odd, received]
          · exact fun _ => room_quiet rests.frameWr full.1

theorem counted_step (counted : Counted s b) (rx : s.rx = .drop) (low : b.low = 0) :
    Receives (s.step i) (b.next s i) := by
  have size : (s.step i).fsize = s.fsize := by simp [State.step, State.nextFsize, rx]
  have kept : (b.next s i).kept = b.kept := by simp [Book.next, low, stored_quiet counted.frameWr]
  have received : (b.next s i).received = b.received ++ if State.fwordValid i then [i.dat] else [] := by
    simp [Book.next, low]
  have more : Counted (s.step i) (b.next s i) := by
    refine ⟨?_, by simp [State.step, State.writesFrame, rx], by simp [Book.next, rx],
      by simpa [size, kept] using counted.size⟩
    rw [kept, received]
    exact counted.own.trans ((List.prefix_append _ _).drop 3)
  cases cyc : i.cyc with
  | true =>
      have next : (s.step i).rx = .drop := by simp [State.step, State.nextRx, rx, cyc]
      simp only [Receives, next]
      exact ⟨by simp [Book.next, cyc], more⟩
  | false =>
      have next : (s.step i).rx = .fend := by simp [State.step, State.nextRx, rx, cyc]
      simp only [Receives, next]
      exact ⟨by simp [Book.next, cyc, low], more⟩

theorem fend_step (counted : Counted s b) (rx : s.rx = .fend) (low : b.low = 1) (frames : Frames b i)
    (counts : Counts s b i) : Receives (s.step i) (b.next s i) := by
  have cyc : i.cyc = false := by
    by_contra high
    exact frames.apart (by simpa using high) low
  have silent := counts.later (by omega)
  have next : (s.step i).rx = .idle := by simp [State.step, State.nextRx, rx]
  have size : (s.step i).fsize = 0 := by
    rcases counts.long rx with none | long
    · simp [State.step, State.nextFsize, rx, none]
    · have some : 4#16 < s.fsize := BitVec.lt_trans (by decide) long
      simp [State.step, State.nextFsize, rx, some]
  simp only [Receives, next]
  refine ⟨?_, ?_, ?_, ?_, ?_, ?_, size⟩
  · simp [Book.next, cyc, low]
  · simp [Book.next, low, silent]
  · simp [Book.next, low, stored_quiet counted.frameWr]
  · simp [Book.next, cyc]
  · simp [State.step, State.writesFrame, rx]
  · simp [Book.next, rx]

/-! #### Within a frame -/

/-- What the last cycle handed over has been stored, or else it has been refused. -/
theorem Payload.moves (payload : Payload s b lost) : ∃ left, b.received.drop 3 = b.kept ++ s.stored ++ left ∧
    left.length = if b.refusing s then 1 else 0 := by
  have split := payload.split
  have length := payload.lost
  have free := payload.free
  cases refused : b.refused with
  | true =>
      have wr := free refused
      refine ⟨lost, ?_, ?_⟩
      · simpa [stored_quiet wr, handed_quiet wr] using split
      · simpa [Book.refusing, refused] using length
  | false =>
      rw [refused, if_neg Bool.false_ne_true, List.length_eq_zero_iff] at length
      subst length
      cases wr : s.frameWr with
      | false =>
          refine ⟨[], ?_, by simp [Book.refusing, refused, wr]⟩
          simpa [stored_quiet wr, handed_quiet wr] using split
      | true =>
          cases full : s.ffifoFull with
          | false =>
              refine ⟨[], ?_, by simp [Book.refusing, refused, full]⟩
              rw [stored_handed fun _ => full]
              simpa using split
          | true =>
              refine ⟨s.handed, ?_, by simp [Book.refusing, wr, full, State.handed]⟩
              simpa [State.stored, full] using split

theorem Payload.few (payload : Payload s b lost) (short : b.received.length ≤ 3) :
    b.kept = [] ∧ s.frameWr = false ∧ b.refused = false := by
  have split := payload.split
  rw [List.drop_of_length_le short] at split
  have none := split.symm
  simp only [List.append_eq_nil_iff] at none
  obtain ⟨kept, handed, left⟩ := none
  refine ⟨kept, ?_, ?_⟩
  · by_contra wr
    simp [State.handed, wr] at handed
  · by_contra refused
    have length := payload.lost
    simp [left, refused] at length

theorem Payload.bounded (payload : Payload s b lost) : b.received.length ≤ b.kept.length + 5 := by
  have split := congrArg List.length payload.split
  have length := payload.lost
  have handed : s.handed.length ≤ 1 := by
    rw [State.handed]
    split <;> simp
  simp only [List.length_drop, List.length_append] at split
  split at length <;> omega

/-- A word that finds room is counted. -/
theorem Payload.counts (payload : Payload s b lost) (rx : s.rx = .payload) (frames : Frames b i)
    (valid : State.fwordValid i = true) (room : s.ffifoFull = false) (bounded : b.kept.length ≤ State.frameSize) :
    (s.step i).fsize.toNat + (if (b.next s i).odd then 1 else 0) = 2 * (b.received.length + 1) := by
  obtain ⟨sel, odd⟩ := frames.whole valid
  have size := payload.size
  have short := payload.bounded
  simp only [State.frameSize] at bounded
  rw [odd, if_neg Bool.false_ne_true] at size
  have step : (s.step i).fsize = s.nextFsize i := rfl
  have cyc := valid_cyc valid
  rcases sel with two | one
  · have next : s.nextFsize i = s.fsize + 2 := by simp [State.nextFsize, rx, room, valid, two]
    have even : (b.next s i).odd = false := by simp [Book.next, odd, two]
    rw [step, next, even, if_neg Bool.false_ne_true, BitVec.toNat_add, Nat.mod_eq_of_lt]
    · simp
      omega
    · simp
      omega
  · have next : s.nextFsize i = s.fsize + 1 := by simp [State.nextFsize, rx, room, valid, one]
    have last : (b.next s i).odd = true := by simp [Book.next, cyc, valid, one]
    rw [step, next, last, if_pos rfl, BitVec.toNat_add, Nat.mod_eq_of_lt]
    · simp
      omega
    · simp
      omega

/-- A word that is one of the first three. -/
theorem payload_header (payload : Payload s b lost) (rx : s.rx = .payload) (frames : Frames b i)
    (valid : State.fwordValid i = true) (header : s.stores i = false) : Payload (s.step i) (b.next s i) [] := by
  have odd := (frames.whole valid).2
  have size := payload.size
  have few : b.received.length ≤ 2 := by
    have small : ¬4 < s.fsize := fun large => by simp [stores_iff.2 ⟨large, valid⟩] at header
    rw [odd, if_neg Bool.false_ne_true] at size
    rw [BitVec.lt_def] at small
    simp at small
    omega
  obtain ⟨kept, wr, refused⟩ := payload.few (by omega)
  have room := payload.room (by omega)
  have received : (b.next s i).received = b.received ++ [i.dat] := by simp [Book.next, payload.low, valid]
  have quiet : (s.step i).frameWr = false := by simp [State.step, State.writesFrame, header]
  have none : (b.next s i).refused = false := by simp [Book.next, Book.refusing, refused, wr]
  refine ⟨?_, ?_, by simp [none], by simp [none], ?_, fun _ => room_quiet wr room⟩
  · simp [Book.next, valid_cyc valid]
  · rw [received, List.drop_of_length_le (by simp; omega)]
    simp [Book.next, payload.low, kept, stored_quiet wr, handed_quiet quiet]
  · rw [payload.counts rx frames valid room (by simp [kept]), received]
    simp

theorem payload_word (payload : Payload s b lost) (rx : s.rx = .payload) (frames : Frames b i)
    (body : s.stores i = true) (room : s.ffifoFull = false) (refusing : b.refusing s = false)
    (bounded : b.kept.length ≤ State.frameSize) : Payload (s.step i) (b.next s i) [] := by
  obtain ⟨large, valid⟩ := stores_iff.1 body
  have odd := (frames.whole valid).2
  obtain ⟨left, split, length⟩ := payload.moves
  rw [refusing, if_neg Bool.false_ne_true, List.length_eq_zero_iff] at length
  subst length
  have size := payload.size
  have many : 3 ≤ b.received.length := by
    rw [odd, if_neg Bool.false_ne_true] at size
    rw [BitVec.lt_def] at large
    simp at large
    omega
  have received : (b.next s i).received = b.received ++ [i.dat] := by simp [Book.next, payload.low, valid]
  have none : (b.next s i).refused = false := by simp [Book.next, refusing]
  have handed : (s.step i).handed = [i.dat] := by
    simp [State.handed, State.step, State.writesFrame, rx, body, room]
  refine ⟨?_, ?_, by simp [none], by simp [none], ?_, fun short => ?_⟩
  · simp [Book.next, valid_cyc valid]
  · rw [received, List.drop_append_of_le_length many, split, handed]
    simp [Book.next, payload.low]
  · rw [payload.counts rx frames valid room bounded, received]
    simp
  · rw [received] at short
    simp at short
    omega

/-- A word that comes behind a refused one: the size gives that one back. -/
theorem payload_full (payload : Payload s b lost) (rx : s.rx = .payload) (frames : Frames b i)
    (body : s.stores i = true) (full : s.ffifoFull = true) (refusing : b.refusing s = true) :
    Counted (s.step i) (b.next s i) := by
  obtain ⟨large, valid⟩ := stores_iff.1 body
  have odd := (frames.whole valid).2
  obtain ⟨left, split, length⟩ := payload.moves
  rw [refusing, if_pos rfl] at length
  have size := payload.size
  rw [odd, if_neg Bool.false_ne_true] at size
  have kept : (b.next s i).kept = b.kept ++ s.stored := by simp [Book.next, payload.low]
  have received : (b.next s i).received = b.received ++ [i.dat] := by simp [Book.next, payload.low, valid]
  refine ⟨?_, ?_, ?_, .inr ?_⟩
  · rw [kept, received]
    calc b.kept ++ s.stored <+: b.received.drop 3 := by rw [split]; exact List.prefix_append _ _
      _ <+: (b.received ++ [i.dat]).drop 3 := (List.prefix_append _ _).drop 3
  · simp [State.step, State.writesFrame, full]
  · simp [Book.next, body, full]
  · have next : (s.step i).fsize = s.fsize - 2 := by simp [State.step, State.nextFsize, rx, body, full]
    have count := congrArg List.length split
    simp only [List.length_drop, List.length_append, length] at count
    rw [BitVec.lt_def] at large
    simp at large
    rw [next, kept, BitVec.toNat_sub_of_le (by rw [BitVec.le_def]; simp; omega)]
    simp
    omega

theorem payload_gap (payload : Payload s b lost) (rx : s.rx = .payload) (cyc : i.cyc = true)
    (silent : State.fwordValid i = false) : ∃ lost, Payload (s.step i) (b.next s i) lost := by
  obtain ⟨left, split, length⟩ := payload.moves
  have received : (b.next s i).received = b.received := by simp [Book.next, payload.low, silent]
  have idle : s.stores i = false := by simp [State.stores, silent]
  have wr : (s.step i).frameWr = false := by simp [State.step, State.writesFrame, idle]
  have refused : (b.next s i).refused = b.refusing s := by simp [Book.next, rx, idle]
  refine ⟨left, ?_, ?_, ?_, fun _ => wr, ?_, fun short => ?_⟩
  · simp [Book.next, cyc]
  · rw [received, split, handed_quiet wr]
    simp [Book.next, payload.low]
  · rw [refused, length]
  · have size : (s.step i).fsize = s.fsize := by simp [State.step, State.nextFsize, rx, idle, silent]
    rw [size, received]
    simpa [Book.next, cyc, silent] using payload.size
  · rw [received] at short
    exact room_quiet (payload.few short).2.1 (payload.room short)

theorem payload_end (payload : Payload s b lost) (rx : s.rx = .payload) (cyc : i.cyc = false) (frames : Frames b i)
    (last : b.refusing s = false) : Counted (s.step i) (b.next s i) := by
  obtain ⟨left, split, length⟩ := payload.moves
  rw [last, if_neg Bool.false_ne_true, List.length_eq_zero_iff] at length
  rw [length, List.append_nil] at split
  have silent : State.fwordValid i = false := by simp [State.fwordValid, cyc]
  have idle : s.stores i = false := by simp [State.stores, silent]
  have received : (b.next s i).received = b.received := by simp [Book.next, payload.low, silent]
  have kept : (b.next s i).kept = b.received.drop 3 := by
    rw [split]
    simp [Book.next, payload.low]
  refine ⟨by rw [kept, received], ?_, by simp [Book.next, last], .inr ?_⟩
  · simp [State.step, State.writesFrame, idle]
  · have size : (s.step i).fsize = s.fsize := by simp [State.step, State.nextFsize, rx, idle, silent]
    have seven := frames.seven payload.low cyc
    have counted := payload.size
    rw [size, kept, List.length_drop]
    split at counted <;> omega

theorem payload_step (payload : Payload s b lost) (rx : s.rx = .payload) (frames : Frames b i) (counts : Counts s b i)
    (bounded : b.kept.length ≤ State.frameSize) : Receives (s.step i) (b.next s i) := by
  have next : (s.step i).rx = s.nextRx i := rfl
  cases cyc : i.cyc with
  | false =>
      have fend : (s.step i).rx = .fend := by simp [next, State.nextRx, rx, cyc]
      simp only [Receives, fend]
      exact ⟨by simp [Book.next, cyc, payload.low], payload_end payload rx cyc frames (counts.last rx cyc)⟩
  | true =>
      cases body : s.stores i with
      | false =>
          have stays : (s.step i).rx = .payload := by simp [next, State.nextRx, rx, cyc, body]
          simp only [Receives, stays]
          cases valid : State.fwordValid i with
          | false => exact payload_gap payload rx cyc valid
          | true => exact ⟨[], payload_header payload rx frames valid body⟩
      | true =>
          have refusing := counts.body rx body
          cases full : s.ffifoFull with
          | false =>
              have stays : (s.step i).rx = .payload := by simp [next, State.nextRx, rx, cyc, full]
              simp only [Receives, stays]
              exact ⟨[], payload_word payload rx frames body full (refusing ▸ full) bounded⟩
          | true =>
              have drop : (s.step i).rx = .drop := by simp [next, State.nextRx, rx, cyc, body, full]
              simp only [Receives, drop]
              exact ⟨by simp [Book.next, cyc], payload_full payload rx frames body full (refusing ▸ full)⟩

theorem receives_step (receives : Receives s b) (frames : Frames b i) (counts : Counts s b i)
    (bounded : b.kept.length ≤ State.frameSize) : Receives (s.step i) (b.next s i) := by
  cases rx : s.rx with
  | idle =>
      simp only [Receives, rx] at receives
      exact rests_step receives rx counts
  | payload =>
      simp only [Receives, rx] at receives
      obtain ⟨lost, payload⟩ := receives
      exact payload_step payload rx frames counts bounded
  | drop =>
      simp only [Receives, rx] at receives
      exact counted_step receives.2 rx receives.1
  | fend =>
      simp only [Receives, rx] at receives
      exact fend_step receives.2 rx receives.1 frames counts

/-- Where a frame is over, its size is entered, or nothing of it is in the frame FIFO. -/
theorem Receives.over (receives : Receives s b) (rx : s.rx = .fend) : s.frameWr = false ∧
    (b.kept <+: b.received.drop 3) ∧ (s.fsize = 0 ∧ b.kept = [] ∨ (s.fsize.toNat + 1) / 2 = b.kept.length + 3) := by
  simp only [Receives, rx] at receives
  exact ⟨receives.2.frameWr, receives.2.own, receives.2.size⟩

/-! ### The queues -/

theorem drawn_rest (s : State) :
    s.drawn ++ (if s.popsFrame then s.frameFifo.tail else s.frameFifo) = s.frameFifo := by
  cases rd : s.frameRd <;> cases fifo : s.frameFifo <;> simp [State.drawn, State.popsFrame, rd, fifo]

theorem step_frameFifo (s : State) (i : In) :
    (s.step i).frameFifo = (if s.popsFrame then s.frameFifo.tail else s.frameFifo) ++ s.stored := rfl

theorem writesSize_iff : s.writesSize = true ↔ s.rx = .fend ∧ 4 < s.fsize := by simp [State.writesSize]

/-- A frame that leaves words in the FIFO is entered. -/
theorem entered_kept (receives : Receives s b) : (b.next s i).entered.flatMap Frame.kept ++ (b.next s i).kept =
    b.entered.flatMap Frame.kept ++ b.kept ++ s.stored := by
  have others : s.rx ≠ .fend → (0 < b.low → b.kept = []) →
      (b.next s i).entered.flatMap Frame.kept ++ (b.next s i).kept =
        b.entered.flatMap Frame.kept ++ b.kept ++ s.stored := by
    intro rx start
    have none : s.writesSize = false := by simp [State.writesSize, rx]
    by_cases low : 0 < b.low
    · simp [Book.next, none, low, start low]
    · simp [Book.next, none, low]
  cases rx : s.rx with
  | fend =>
      obtain ⟨wr, -, size⟩ := receives.over rx
      simp only [Receives, rx] at receives
      have low : 0 < b.low := by omega
      have kept : (b.next s i).kept = [] := by simp [Book.next, low, stored_quiet wr]
      rw [kept, stored_quiet wr]
      rcases size with ⟨zero, empty⟩ | announced
      · have none : s.writesSize = false := by simp [State.writesSize, zero]
        simp [Book.next, none, empty]
      · have large : 4 < s.fsize := by
          rw [BitVec.lt_def]
          simp
          omega
        simp [Book.next, writesSize_iff.2 ⟨rx, large⟩]
  | idle =>
      simp only [Receives, rx] at receives
      exact others (by simp [rx]) fun _ => receives.kept
  | payload =>
      simp only [Receives, rx] at receives
      obtain ⟨lost, payload⟩ := receives
      exact others (by simp [rx]) fun low => by simp [payload.low] at low
  | drop =>
      simp only [Receives, rx] at receives
      exact others (by simp [rx]) fun low => by simp [receives.1] at low

theorem stock_step (receives : Receives s b)
    (stock : b.popped ++ s.frameFifo = b.entered.flatMap Frame.kept ++ b.kept) :
    (b.next s i).popped ++ (s.step i).frameFifo =
      (b.next s i).entered.flatMap Frame.kept ++ (b.next s i).kept := by
  have popped : (b.next s i).popped = b.popped ++ s.drawn := rfl
  calc (b.next s i).popped ++ (s.step i).frameFifo
      = b.popped ++ (s.drawn ++ (if s.popsFrame then s.frameFifo.tail else s.frameFifo)) ++ s.stored := by
        rw [popped, step_frameFifo]
        simp only [List.append_assoc]
    _ = b.entered.flatMap Frame.kept ++ b.kept ++ s.stored := by rw [drawn_rest, stock]
    _ = (b.next s i).entered.flatMap Frame.kept ++ (b.next s i).kept := (entered_kept receives).symm

theorem cap_step (cap : s.frameFifo.length ≤ State.frameSize) : (s.step i).frameFifo.length ≤ State.frameSize := by
  have less : (if s.popsFrame then s.frameFifo.tail else s.frameFifo).length ≤ s.frameFifo.length := by
    split <;> simp
  rw [step_frameFifo, List.length_append]
  cases full : s.ffifoFull with
  | true =>
      have none : s.stored = [] := by simp [State.stored, full]
      rw [none, List.length_nil]
      omega
  | false =>
      have one : s.stored.length ≤ 1 := by
        rw [State.stored]
        split <;> simp
      rw [State.ffifoFull, decide_eq_false_iff_not] at full
      omega

/-- A size taken is the next of the frames entered. -/
theorem sizes_step (sizes : s.announced = (b.entered.drop b.taken).map Frame.size) (counts : Counts s b i)
    (taken : b.taken ≤ b.entered.length) (read : s.fsizeRd = true → s.sizeFifo ≠ []) :
    (s.step i).announced = ((b.next s i).entered.drop (b.next s i).taken).map Frame.size ∧
      (b.next s i).taken ≤ b.entered.length := by
  have kept : (if s.fsizeWr && !s.sfifoFull then [s.fsizeIn] else []) = if s.fsizeWr then [s.fsizeIn] else [] := by
    cases wr : s.fsizeWr with
    | false => rfl
    | true => simp [counts.entry wr]
  have front : (if s.fsizeRd then s.sizeFifo.tail else s.sizeFifo) ++ (if s.fsizeWr then [s.fsizeIn] else []) =
      (b.entered.drop (b.next s i).taken).map Frame.size ∧ (b.next s i).taken ≤ b.entered.length := by
    cases rd : s.fsizeRd with
    | false => exact ⟨by simpa [State.announced, Book.next, rd] using sizes, by simpa [Book.next, rd] using taken⟩
    | true =>
        have next : (b.next s i).taken = b.taken + 1 := by simp [Book.next, rd]
        have some := read rd
        have tail := congrArg List.tail sizes
        rw [State.announced, List.tail_append_of_ne_nil some, ← List.map_tail, List.tail_drop] at tail
        refine ⟨by simpa [next] using tail, ?_⟩
        have held : (b.entered.drop b.taken).length ≠ 0 := by
          rw [← List.length_map Frame.size, ← sizes]
          simp [State.announced, some]
        rw [List.length_drop] at held
        omega
  refine ⟨?_, front.2⟩
  have shape : (s.step i).announced = ((if s.fsizeRd then s.sizeFifo.tail else s.sizeFifo) ++
      if s.fsizeWr && !s.sfifoFull then [s.fsizeIn] else []) ++ if s.writesSize then [s.fsize] else [] := by
    cases size : s.writesSize <;> simp [State.announced, State.step, size]
  rw [shape, kept, front.1]
  cases size : s.writesSize with
  | false => simp [Book.next, size]
  | true =>
      have entered : (b.next s i).entered = b.entered ++ [⟨b.received, b.kept, s.fsize⟩] := by simp [Book.next, size]
      rw [entered, List.drop_append_of_le_length front.2]
      simp

/-- What was entered before stays. -/
theorem entered_take {n : Nat} (inside : n ≤ b.entered.length) :
    (b.next s i).entered.take n = b.entered.take n := by
  simp only [Book.next]
  split
  · exact List.take_append_of_le_length inside
  · rfl

/-! ### The transmitter -/

structure Between (s : State) (b : Book) : Prop where
  frameRd : s.frameRd = false
  popped : b.popped = (b.entered.take b.taken).flatMap Frame.kept
  heard : b.heard s = (b.entered.take b.taken).flatMap Frame.events

/-- `j` words of the frame have been sent and `q` popped; for the next one the word at its place is popped or asked for. -/
structure Midst (s : State) (b : Book) (before : List Frame) (f : Frame) (j q : Nat) : Prop where
  served : b.entered.take b.taken = before ++ [f]
  size : s.txsize.toNat + 2 * j = f.size.toNat
  inside : j < f.kept.length + 3
  count : s.txCnt.toNat = min j 15
  popped : b.popped = before.flatMap Frame.kept ++ f.kept.take q
  asked : q + (if s.frameRd then 1 else 0) = Frame.place j + 1
  out : s.frameRd = false → s.frameOut = f.kept.getD (Frame.place j) 0
  heard : b.heard s = before.flatMap Frame.events ++ .sof :: f.wordEvents j

structure Ended (s : State) (b : Book) (before : List Frame) (f : Frame) : Prop where
  served : b.entered.take b.taken = before ++ [f]
  frameRd : s.frameRd = false
  popped : b.popped = (before ++ [f]).flatMap Frame.kept
  heard : b.heard s = before.flatMap Frame.events ++ .sof :: f.wordEvents (f.kept.length + 3)

def Sends (s : State) (b : Book) : Prop :=
  match s.tx with
  | .idle => Between s b
  | .getSize => Between s b ∧ s.sizeFifo ≠ []
  | .payload => ∃ before f j q, Midst s b before f j q
  | .eof => ∃ before f, Ended s b before f

theorem shown_plain (s : State) (forced : Option Word) : (s.shown forced).map Event.plain = s.shown none := by
  cases sof : s.sof <;> cases valid : s.dvalid <;> cases eof :
    s.eof <;> simp [State.shown, Event.plain, sof, valid, eof]

theorem heard_next : (b.next s i).heard (s.step i) = b.heard s ++ (s.step i).shown none := by
  simp [Book.heard, Book.next, shown_plain]

theorem popped_quiet (rd : s.frameRd = false) : (b.next s i).popped = b.popped := by
  simp [Book.next, State.drawn, rd]

theorem taken_quiet (rd : s.fsizeRd = false) : (b.next s i).taken = b.taken := by simp [Book.next, rd]

theorem idle_step (between : Between s b) (tx : s.tx = .idle) (rd : s.fsizeRd = false)
    (taken : b.taken ≤ b.entered.length) : Sends (s.step i) (b.next s i) := by
  have kept : Between (s.step i) (b.next s i) := by
    refine ⟨by simp [State.step, State.readsFrame, tx], ?_, ?_⟩
    · rw [popped_quiet between.frameRd, taken_quiet rd, entered_take taken, between.popped]
    · have silent : (s.step i).shown none = [] := by simp [State.shown, State.step, State.sendsWord, tx]
      rw [heard_next, silent, taken_quiet rd, entered_take taken, between.heard, List.append_nil]
  have next : (s.step i).tx = s.nextTx i := rfl
  cases go : !s.sfifoEmpty && i.dreq with
  | false =>
      have idle : (s.step i).tx = .idle := by simp only [next, State.nextTx, tx, go, Bool.false_eq_true, if_false]
      simpa only [Sends, idle] using kept
  | true =>
      have size : (s.step i).tx = .getSize := by simp only [next, State.nextTx, tx, go, if_true]
      simp only [Sends, size]
      refine ⟨kept, ?_⟩
      simp only [Bool.and_eq_true, Bool.not_eq_true', State.sfifoEmpty, List.isEmpty_eq_false_iff] at go
      simp [State.step, rd, go.1]

theorem getSize_step (between : Between s b) (tx : s.tx = .getSize) (rd : s.fsizeRd = true) (some : s.sizeFifo ≠ [])
    (sizes : s.announced = (b.entered.drop b.taken).map Frame.size) (sound : ∀ f ∈ b.entered, f.Sound)
    (dreq : i.dreq = true) : Sends (s.step i) (b.next s i) := by
  obtain ⟨size, left, fifo⟩ := List.exists_cons_of_ne_nil some
  rw [State.announced, fifo, List.cons_append] at sizes
  obtain ⟨f, rest, drop, first, -⟩ := List.map_eq_cons_iff.1 sizes.symm
  have entered : b.entered = b.entered.take b.taken ++ f :: rest := by rw [← drop, List.take_append_drop]
  have inside : b.taken < b.entered.length := by
    by_contra past
    rw [List.drop_of_length_le (by omega)] at drop
    simp at drop
  have length : (b.entered.take b.taken).length = b.taken := by simp [inside.le]
  have served : b.entered.take (b.taken + 1) = b.entered.take b.taken ++ [f] := by
    conv_lhs => rw [entered]
    rw [List.take_append, length]
    simp
  have long := (sound f (by rw [entered]; simp)).long
  have next : (s.step i).tx = .payload := by simp [State.step, State.nextTx, tx, dreq]
  have taken : (b.next s i).taken = b.taken + 1 := by simp [Book.next, rd]
  simp only [Sends, next]
  refine ⟨b.entered.take b.taken, f, 0, 0, ?_, ?_, by omega, ?_, ?_, ?_, ?_, ?_⟩
  · rw [taken, entered_take (by omega), served]
  · simp [State.step, State.nextTxsize, tx, State.fsizeOut, fifo, first]
  · simp [State.step, State.nextTxCnt, tx]
  · simp [popped_quiet between.frameRd, between.popped]
  · simp [State.step, State.readsFrame, tx, dreq, Frame.place]
  · simp [State.step, State.readsFrame, tx, dreq]
  · have shown : (s.step i).shown none = [.sof] := by
      simp [State.shown, State.step, State.sendsWord, tx, dreq]
    rw [heard_next, shown, between.heard]
    simp [Frame.wordEvents]

theorem place_succ (j : Nat) : Frame.place (j + 1) = Frame.place j + if j < 3 ∨ 5 < j then 1 else 0 := by
  simp only [Frame.place]
  split <;> omega

theorem place_inside {j k : Nat} (inside : j < k + 3) (long : 4 ≤ k) : Frame.place j < k := by
  simp only [Frame.place]
  omega

section Midst

variable {before : List Frame} {f : Frame} {j q : Nat}

/-- What is left of the frame under way stands first in the FIFO. -/
theorem Midst.ahead (midst : Midst s b before f j q)
    (stock : b.popped ++ s.frameFifo = b.entered.flatMap Frame.kept ++ b.kept) : ∃ more,
    s.frameFifo = f.kept.drop q ++ more := by
  have entered : b.entered = before ++ [f] ++ b.entered.drop b.taken := by
    rw [← midst.served, List.take_append_drop]
  rw [midst.popped, entered, List.flatMap_append, List.flatMap_append, List.flatMap_singleton] at stock
  simp only [List.append_assoc] at stock
  have same := List.append_cancel_left stock
  conv_rhs at same => rw [← List.take_append_drop q f.kept, List.append_assoc]
  exact ⟨_, List.append_cancel_left same⟩

/-- The next word is at the output of the FIFO after the cycle. -/
theorem Midst.pops (midst : Midst s b before f j q) (sound : f.Sound)
    (stock : b.popped ++ s.frameFifo = b.entered.flatMap Frame.kept ++ b.kept) :
    (b.next s i).popped = before.flatMap Frame.kept ++ f.kept.take (Frame.place j + 1) ∧
      (s.step i).frameOut = f.kept.getD (Frame.place j) 0 := by
  have asked := midst.asked
  have place := place_inside midst.inside sound.long
  cases rd : s.frameRd with
  | false =>
      rw [rd, if_neg Bool.false_ne_true, Nat.add_zero] at asked
      refine ⟨by rw [popped_quiet rd, midst.popped, asked], ?_⟩
      rw [← midst.out rd]
      simp [State.step, State.popsFrame, rd]
  | true =>
      rw [rd, if_pos rfl, Nat.add_right_cancel_iff] at asked
      subst asked
      obtain ⟨more, fifo⟩ := midst.ahead stock
      rw [List.drop_eq_getElem_cons place, List.cons_append] at fifo
      constructor
      · simp [Book.next, State.drawn, rd, fifo, midst.popped]
      · simp [State.step, State.popsFrame, rd, fifo, place]

theorem Midst.served_next (midst : Midst s b before f j q) (rd : s.fsizeRd = false)
    (taken : b.taken ≤ b.entered.length) : (b.next s i).entered.take (b.next s i).taken = before ++ [f] := by
  rw [taken_quiet rd, entered_take taken, midst.served]

theorem midst_wait (midst : Midst s b before f j q) (tx : s.tx = .payload) (rd : s.fsizeRd = false)
    (taken : b.taken ≤ b.entered.length) (sound : f.Sound)
    (stock : b.popped ++ s.frameFifo = b.entered.flatMap Frame.kept ++ b.kept) (dreq : i.dreq = false) :
    Midst (s.step i) (b.next s i) before f j (Frame.place j + 1) := by
  obtain ⟨popped, out⟩ := midst.pops (i := i) sound stock
  refine ⟨midst.served_next rd taken, ?_, midst.inside, ?_, popped, ?_, fun _ => out, ?_⟩
  · simpa [State.step, State.nextTxsize, tx, dreq] using midst.size
  · simpa [State.step, State.nextTxCnt, tx, dreq] using midst.count
  · simp [State.step, State.readsFrame, tx, dreq]
  · have silent : (s.step i).shown none = [] := by simp [State.shown, State.step, State.sendsWord, tx, dreq]
    rw [heard_next, silent, midst.heard, List.append_nil]

theorem Midst.counts (midst : Midst s b before f j q) (tx : s.tx = .payload) (dreq : i.dreq = true) :
    (s.step i).txCnt.toNat = min (j + 1) 15 := by
  have count := midst.count
  have step : (s.step i).txCnt = if s.txCnt < 15 then s.txCnt + 1 else s.txCnt := by
    simp [State.step, State.nextTxCnt, tx, dreq]
  rw [step]
  split
  · rename_i less
    rw [BitVec.lt_def] at less
    simp at less
    rw [BitVec.toNat_add]
    simp
    omega
  · rename_i more
    rw [BitVec.lt_def] at more
    simp at more
    omega

/-- `tx_cnt` tells the words of the header. -/
theorem Midst.header (midst : Midst s b before f j q) : (s.txCnt < 3#4 ↔ j < 3) ∧ (5#4 < s.txCnt ↔ 5 < j) ∧
    (3#4 ≤ s.txCnt ↔ 3 ≤ j) ∧ (s.txCnt ≤ 5#4 ↔ j ≤ 5) := by
  have count := midst.count
  simp only [BitVec.lt_def, BitVec.le_def, BitVec.toNat_ofNat]
  omega

theorem Midst.hears (midst : Midst s b before f j q) (tx : s.tx = .payload) (dreq : i.dreq = true) (sound : f.Sound)
    (stock : b.popped ++ s.frameFifo = b.entered.flatMap Frame.kept ++ b.kept) (whole : 5 < j ∨ 2#16 < s.txsize) :
    (b.next s i).heard (s.step i) = before.flatMap Frame.events ++ .sof :: f.wordEvents (j + 1) := by
  obtain ⟨few, many, from3, upTo5⟩ := midst.header
  have sends : s.sendsWord i = true := by
    by_cases j < 3 <;> by_cases 5 < j <;> by_cases 2#16 < s.txsize <;> simp_all [State.sendsWord]
  have count : (s.step i).txCnt = BitVec.ofNat 4 (min (j + 1) 15) := by
    apply BitVec.eq_of_toNat_eq
    rw [midst.counts tx dreq]
    simp
    omega
  have word : (s.step i).shown none = [f.wordEvent j] := by
    have valid : (s.step i).dvalid = true := sends
    have sof : (s.step i).sof = false := by simp [State.step, tx]
    have eof : (s.step i).eof = false := by simp [State.step, tx]
    simp [State.shown, sof, eof, valid, count, (midst.pops (i := i) sound stock).2, Frame.wordEvent]
  rw [heard_next, word, midst.heard, f.wordEvents_succ]
  simp

theorem midst_word (midst : Midst s b before f j q) (tx : s.tx = .payload) (rd : s.fsizeRd = false)
    (taken : b.taken ≤ b.entered.length) (sound : f.Sound)
    (stock : b.popped ++ s.frameFifo = b.entered.flatMap Frame.kept ++ b.kept) (dreq : i.dreq = true)
    (more : j + 1 < f.kept.length + 3) :
    Midst (s.step i) (b.next s i) before f (j + 1) (Frame.place j + 1) ∧ (s.step i).tx = .payload := by
  obtain ⟨popped, out⟩ := midst.pops (i := i) sound stock
  have announced := sound.size
  have size := midst.size
  have large : 2#16 < s.txsize := by
    rw [BitVec.lt_def]
    simp
    omega
  obtain ⟨few, many, -, -⟩ := midst.header
  have reads : (s.step i).frameRd = (decide (j < 3) || decide (5 < j)) := by
    simp [State.step, State.readsFrame, tx, dreq, large, few, many]
  have reads' : (if (s.step i).frameRd then 1 else 0) = if j < 3 ∨ 5 < j then 1 else 0 := by simp [reads]
  refine ⟨⟨midst.served_next rd taken, ?_, more, midst.counts tx dreq, popped, ?_, fun none => ?_,
    midst.hears tx dreq sound stock (.inr large)⟩, ?_⟩
  · have one : 1#16 < s.txsize := BitVec.lt_trans (by decide) large
    have next : (s.step i).txsize = s.txsize - 2 := by simp [State.step, State.nextTxsize, tx, dreq, one]
    rw [BitVec.lt_def] at large
    simp at large
    rw [next, BitVec.toNat_sub_of_le (by rw [BitVec.le_def]; simp; omega)]
    simp
    omega
  · rw [reads', place_succ]
    omega
  · rw [reads] at none
    rw [out, place_succ, if_neg (by simpa using none), Nat.add_zero]
  · simp [State.step, State.nextTx, tx, dreq, BitVec.not_le.2 large]

theorem midst_last (midst : Midst s b before f j q) (tx : s.tx = .payload) (rd : s.fsizeRd = false)
    (taken : b.taken ≤ b.entered.length) (sound : f.Sound)
    (stock : b.popped ++ s.frameFifo = b.entered.flatMap Frame.kept ++ b.kept) (dreq : i.dreq = true)
    (last : j + 1 = f.kept.length + 3) :
    Ended (s.step i) (b.next s i) before f ∧ (s.step i).tx = .eof := by
  obtain ⟨popped, -⟩ := midst.pops (i := i) sound stock
  have announced := sound.size
  have size := midst.size
  have long := sound.long
  have small : s.txsize ≤ 2#16 := by
    rw [BitVec.le_def]
    simp
    omega
  refine ⟨⟨midst.served_next rd taken, ?_, ?_, ?_⟩, ?_⟩
  · simp [State.step, State.readsFrame, tx, BitVec.not_lt.2 small]
  · have all : f.kept.length ≤ Frame.place j + 1 := by
      simp only [Frame.place]
      omega
    rw [popped, List.take_of_length_le all]
    simp
  · rw [midst.hears tx dreq sound stock (.inl (by omega)), last]
  · simp [State.step, State.nextTx, tx, dreq, small]

end Midst

theorem eof_step {before : List Frame} {f : Frame} (ended : Ended s b before f) (tx : s.tx = .eof)
    (rd : s.fsizeRd = false) (taken : b.taken ≤ b.entered.length) : Sends (s.step i) (b.next s i) := by
  have served : (b.next s i).entered.take (b.next s i).taken = before ++ [f] := by
    rw [taken_quiet rd, entered_take taken, ended.served]
  have popped : (b.next s i).popped = (before ++ [f]).flatMap Frame.kept := by
    rw [popped_quiet ended.frameRd, ended.popped]
  have quiet : (s.step i).frameRd = false := by simp [State.step, State.readsFrame, tx]
  cases dreq : i.dreq with
  | false =>
      have next : (s.step i).tx = .eof := by simp [State.step, State.nextTx, tx, dreq]
      have silent : (s.step i).shown none = [] := by simp [State.shown, State.step, State.sendsWord, tx, dreq]
      simp only [Sends, next]
      exact ⟨before, f, served, quiet, popped, by rw [heard_next, silent, ended.heard, List.append_nil]⟩
  | true =>
      have next : (s.step i).tx = .idle := by simp [State.step, State.nextTx, tx, dreq]
      have shown : (s.step i).shown none = [.eof] := by simp [State.shown, State.step, State.sendsWord, tx, dreq]
      simp only [Sends, next]
      refine ⟨quiet, by rw [served, popped], ?_⟩
      rw [heard_next, shown, ended.heard, served]
      simp [Frame.events]

/-! ### The run -/

structure Inv (sb : State × Book) : Prop where
  receives : Receives sb.1 sb.2
  stock : sb.2.popped ++ sb.1.frameFifo = sb.2.entered.flatMap Frame.kept ++ sb.2.kept
  cap : sb.1.frameFifo.length ≤ State.frameSize
  sizes : sb.1.announced = (sb.2.entered.drop sb.2.taken).map Frame.size
  taken : sb.2.taken ≤ sb.2.entered.length
  sound : ∀ f ∈ sb.2.entered, f.Sound
  reads : sb.1.fsizeRd = decide (sb.1.tx = .getSize)
  sends : Sends sb.1 sb.2
  forced : ∀ event ∈ sb.2.sent, event.Allowed

/-- The size is read in the one cycle of GET_SIZE. -/
theorem reads_step (counts : Counts s b i) : (s.step i).fsizeRd = decide ((s.step i).tx = .getSize) := by
  have rd : (s.step i).fsizeRd = (decide (s.tx = .idle) && !s.sfifoEmpty && i.dreq) := rfl
  have next : (s.step i).tx = s.nextTx i := rfl
  rw [rd, next, State.nextTx]
  cases tx : s.tx with
  | idle => cases s.sfifoEmpty <;> cases i.dreq <;> rfl
  | getSize => simp [counts.taken tx]
  | payload =>
      simp only [reduceCtorEq, decide_false, Bool.false_and]
      split <;> rfl
  | eof => cases i.dreq <;> rfl

theorem sends_step (inv : Inv (s, b)) (counts : Counts s b i) : Sends (s.step i) (b.next s i) := by
  have reads : s.fsizeRd = decide (s.tx = .getSize) := inv.reads
  have sends : Sends s b := inv.sends
  cases tx : s.tx with
  | idle =>
      simp only [Sends, tx] at sends
      exact idle_step sends tx (by simp [reads, tx]) inv.taken
  | getSize =>
      simp only [Sends, tx] at sends
      exact getSize_step sends.1 tx (by simp [reads, tx]) sends.2 inv.sizes inv.sound (counts.taken tx)
  | payload =>
      simp only [Sends, tx] at sends
      obtain ⟨before, f, j, q, midst⟩ := sends
      have rd : s.fsizeRd = false := by simp [reads, tx]
      have sound : f.Sound := inv.sound f (List.mem_of_mem_take (i := b.taken) (by rw [midst.served]; simp))
      cases dreq : i.dreq with
      | false =>
          have next : (s.step i).tx = .payload := by simp [State.step, State.nextTx, tx, dreq]
          simp only [Sends, next]
          exact ⟨before, f, j, _, midst_wait midst tx rd inv.taken sound inv.stock dreq⟩
      | true =>
          rcases lt_or_eq_of_le (Nat.succ_le_of_lt midst.inside) with more | last
          · obtain ⟨goes, next⟩ := midst_word midst tx rd inv.taken sound inv.stock dreq more
            simp only [Sends, next]
            exact ⟨before, f, _, _, goes⟩
          · obtain ⟨ended, next⟩ := midst_last midst tx rd inv.taken sound inv.stock dreq last
            simp only [Sends, next]
            exact ⟨before, f, ended⟩
  | eof =>
      simp only [Sends, tx] at sends
      obtain ⟨before, f, ended⟩ := sends
      exact eof_step ended tx (by simp [reads, tx]) inv.taken

/-- What is popped and shown belongs to the frames taken. -/
theorem Sends.fronts (sends : Sends s b) : (b.popped <+: (b.entered.take b.taken).flatMap Frame.kept) ∧
    (b.heard s <+: (b.entered.take b.taken).flatMap Frame.events) := by
  cases tx : s.tx with
  | idle =>
      simp only [Sends, tx] at sends
      exact ⟨by rw [sends.popped], by rw [sends.heard]⟩
  | getSize =>
      simp only [Sends, tx] at sends
      exact ⟨by rw [sends.1.popped], by rw [sends.1.heard]⟩
  | payload =>
      simp only [Sends, tx] at sends
      obtain ⟨before, f, j, q, midst⟩ := sends
      rw [midst.served, midst.popped, midst.heard, List.flatMap_append, List.flatMap_append, List.flatMap_singleton,
        List.flatMap_singleton]
      refine ⟨(List.prefix_append_right_inj _).2 (List.take_prefix q f.kept), (List.prefix_append_right_inj _).2 ?_⟩
      have words : f.wordEvents j <+: f.wordEvents (f.kept.length + 3) := by
        have range : (List.range (f.kept.length + 3)).take j = List.range j := by
          rw [List.take_range, min_eq_left midst.inside.le]
        rw [Frame.wordEvents, Frame.wordEvents, ← range]
        exact (List.take_prefix j _).map f.wordEvent
      exact (List.prefix_cons_inj _).2 (words.trans (List.prefix_append _ _))
  | eof =>
      simp only [Sends, tx] at sends
      obtain ⟨before, f, ended⟩ := sends
      rw [ended.served, ended.popped, ended.heard]
      refine ⟨List.prefix_rfl, ?_⟩
      simp [Frame.events]

theorem taken_front {α : Type} (g : Frame → List α) (frames : List Frame) (n : Nat) :
    (frames.take n).flatMap g <+: frames.flatMap g :=
  ⟨(frames.drop n).flatMap g, by rw [← List.flatMap_append, List.take_append_drop]⟩

/-- The words of the frame under way are all in the FIFO. -/
theorem Inv.bounded (inv : Inv (s, b)) : b.kept.length ≤ State.frameSize := by
  have popped : b.popped.length ≤ (b.entered.flatMap Frame.kept).length :=
    (inv.sends.fronts.1.trans (taken_front _ _ _)).length_le
  have stock : b.popped.length + s.frameFifo.length = (b.entered.flatMap Frame.kept).length + b.kept.length := by
    rw [← List.length_append, ← List.length_append]
    exact congrArg List.length inv.stock
  have cap : s.frameFifo.length ≤ State.frameSize := inv.cap
  omega

theorem entered_sound (inv : Inv (s, b)) (counts : Counts s b i) : ∀ f ∈ (b.next s i).entered, f.Sound := by
  cases size : s.writesSize with
  | false => simpa [Book.next, size] using inv.sound
  | true =>
      obtain ⟨rx, large⟩ := writesSize_iff.1 size
      have receives : Receives s b := inv.receives
      obtain ⟨-, own, counted⟩ := receives.over rx
      have long : 12 < s.fsize := (counts.long rx).resolve_left fun zero => by simp [zero] at large
      rw [BitVec.lt_def] at long
      simp at long
      have announced : (s.fsize.toNat + 1) / 2 = b.kept.length + 3 :=
        counted.resolve_left fun none => by simp [none.1] at long
      intro f member
      simp only [Book.next, size, if_true, List.mem_append, List.mem_singleton] at member
      rcases member with old | rfl
      · exact inv.sound f old
      · have kept : 4 ≤ b.kept.length := by omega
        exact ⟨own, kept, announced⟩

theorem shown_allowed (s : State) (i : In) : ∀ event ∈ s.shown (s.forced i), event.Allowed := by
  have word : (Event.word s.txCnt s.frameOut (s.forced i)).Allowed := by
    simp only [Event.Allowed, State.forced]
    split
    · simp_all
    · split
      · simp_all
      · split <;> simp_all
  intro event member
  simp only [State.shown, List.mem_append, List.mem_ite_nil_right, List.mem_singleton] at member
  rcases member with ⟨-, rfl⟩ | ⟨-, rfl⟩ | ⟨-, rfl⟩
  · trivial
  · exact word
  · trivial

theorem Inv.step (inv : Inv (s, b)) (frames : Frames b i) (counts : Counts s b i) : Inv (stepBook (s, b) i) := by
  have reads : s.fsizeRd = decide (s.tx = .getSize) := inv.reads
  have some : s.fsizeRd = true → s.sizeFifo ≠ [] := by
    intro rd
    have sends : Sends s b := inv.sends
    simp only [reads, decide_eq_true_eq] at rd
    simp only [Sends, rd] at sends
    exact sends.2
  obtain ⟨sizes, taken⟩ := sizes_step (i := i) inv.sizes counts inv.taken some
  refine ⟨receives_step inv.receives frames counts inv.bounded, stock_step inv.receives inv.stock, cap_step inv.cap,
    sizes, taken.trans ?_, entered_sound inv counts, reads_step counts, sends_step inv counts, ?_⟩
  · simp only [stepBook, Book.next]
    split <;> simp
  · intro event member
    rcases List.mem_append.1 member with old | now
    · exact inv.forced event old
    · exact shown_allowed s i event now

theorem Inv.start (reset : AfterReset s) : Inv (s, Book.start) := by
  refine ⟨?_, by simp [reset.frameFifo, Book.start], by simp [reset.frameFifo], ?_, by simp [Book.start],
    by simp [Book.start], by simp [reset.fsizeRd, reset.tx], ?_, by simp [Book.start]⟩
  · simp only [Receives, reset.rx]
    exact ⟨le_rfl, rfl, rfl, rfl, reset.frameWr, rfl, reset.fsize⟩
  · simp [State.announced, reset.sizeFifo, reset.fsizeWr, Book.start]
  · simp only [Sends, reset.tx]
    exact ⟨reset.frameRd, rfl, by simp [Book.heard, State.shown, Book.start, reset.sof, reset.eof, reset.dvalid]⟩

theorem Inv.inStep (inv : Inv (s, b)) : InStep s b where
  sound := inv.sound
  popped := inv.sends.fronts.1.trans (taken_front _ _ _)
  sent := (List.prefix_append _ _).trans (inv.sends.fronts.2.trans (taken_front _ _ _))
  forced := inv.forced
  taken := inv.taken
  between := by
    intro tx
    have sends := inv.sends
    simp only [Sends, tx] at sends
    exact ⟨sends.popped, sends.heard⟩
  queued := by
    intro rx tx
    have sends := inv.sends
    have receives := inv.receives
    have stock := inv.stock
    simp only [Sends, tx] at sends
    simp only [Receives, rx] at receives
    simp only [sends.popped, receives.kept, List.append_nil] at stock
    refine ⟨?_, inv.sizes⟩
    conv_rhs at stock => rw [← List.take_append_drop b.taken b.entered, List.flatMap_append]
    exact List.append_cancel_left stock

end Edge

instance (b : Book) (i : In) : Decidable (Frames b i) :=
  decidable_of_iff
    ((State.fwordValid i = true → (i.sel = 3 ∨ i.sel = 2) ∧ b.odd = false) ∧
      (b.low = 0 → i.cyc = false → 7 ≤ b.received.length) ∧ (i.cyc = true → b.low ≠ 1))
    ⟨fun ⟨whole, seven, apart⟩ => ⟨whole, seven, apart⟩, fun ⟨whole, seven, apart⟩ => ⟨whole, seven, apart⟩⟩

instance (s : State) (b : Book) (i : In) : Decidable (Counts s b i) :=
  decidable_of_iff
    ((s.tx = .getSize → i.dreq = true) ∧ (0 < b.low → State.fwordValid i = false) ∧
      (s.rx = .payload → s.stores i = true → s.ffifoFull = b.refusing s) ∧
      (s.rx = .payload → i.cyc = false → b.refusing s = false) ∧
      (s.rx = .fend → s.fsize = 0 ∨ 12 < s.fsize) ∧ (s.fsizeWr = true → s.sfifoFull = false))
    ⟨fun ⟨taken, later, body, last, long, entry⟩ => ⟨taken, later, body, last, long, entry⟩,
      fun ⟨taken, later, body, last, long, entry⟩ => ⟨taken, later, body, last, long, entry⟩⟩

def quietIn (cyc dreq : Bool) : In := ⟨cyc, false, false, 0, 0, dreq, false, fun _ => 0, 0⟩

def wordIn (dat : Word) (sel : BitVec 2) (dreq : Bool) : In :=
    ⟨true, true, true, sel, dat, dreq, false, fun _ => 0, 0⟩

/-- A frame from the rise of `cyc` to its second low cycle. -/
def frameIn (words : List Word) (sel : BitVec 2) (dreq : Bool) : List In :=
  quietIn true dreq :: (words.dropLast.map (wordIn · 3 dreq) ++ [wordIn (words.getLastD 0) sel dreq] ++
    [quietIn false dreq, quietIn false dreq])

/-- Two frames, the first of which ends in half a word, with a source that asks all the time. -/
def twoFrames : List In :=
  frameIn [1, 2, 3, 4, 5, 6, 7] 2 true ++ frameIn [11, 12, 13, 14, 15, 16, 17, 18] 3 true ++
    List.replicate 14 (quietIn false true)

end WrCores.Fabric.Loopback
