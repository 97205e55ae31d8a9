import Mathlib.Data.BitVec
import WrCores.Clocked.Stream

/-!
What the PCS units of the endpoint share: the 8b10b characters and the packing of the
internal fabric into 18-bit FIFO entries from endpoint_private_pkg.vhd, the fabric record
of endpoint_pkg.vhd, and frames on that fabric. Bits the source sets to 'X' are zero here.
-/

namespace WrCores.Endpoint

open Clocked

def cK28_5 : BitVec 8 := 0xbc
def cK23_7 : BitVec 8 := 0xf7
def cK27_7 : BitVec 8 := 0xfb
def cK29_7 : BitVec 8 := 0xfd
def cK30_7 : BitVec 8 := 0xfe
def cK28_7 : BitVec 8 := 0xfc
def cD21_5 : BitVec 8 := 0xb5
def cD2_2 : BitVec 8 := 0x42
def cD5_6 : BitVec 8 := 0xc5
def cD16_2 : BitVec 8 := 0x50
def cPreambleChar : BitVec 8 := 0x55
def cPreambleSfd : BitVec 8 := 0xd5

/-- `t_ep_internal_fabric`. -/
structure InternalFabric where
  sof : Bool := false
  eof : Bool := false
  error : Bool := false
  dvalid : Bool := false
  bytesel : Bool := false
  hasRxTimestamp : Bool := false
  rxTimestampValid : Bool := false
  data : BitVec 16 := 0
  addr : BitVec 2 := 0
  deriving DecidableEq, Repr

/-- With `earlyEof` the end of a frame comes along with its last word, else by itself. -/
def fPackFifoContents (fab : InternalFabric) (earlyEof : Bool) : Option (BitVec 18) :=
  if earlyEof then
    if fab.sof || fab.error then
      some (0b01#2 ++ BitVec.ofBool fab.sof ++ 0#1 ++ BitVec.ofBool fab.error ++ 0#13)
    else if fab.eof && fab.dvalid then some (1#1 ++ BitVec.ofBool fab.bytesel ++ fab.data)
    else if fab.dvalid then some (0b00#2 ++ fab.data)
    else none
  else if fab.sof || fab.error || fab.eof || fab.hasRxTimestamp then
    some (0b01#2 ++ BitVec.ofBool fab.sof ++ BitVec.ofBool fab.eof ++ BitVec.ofBool fab.error ++
      BitVec.ofBool fab.hasRxTimestamp ++ BitVec.ofBool fab.rxTimestampValid ++ 0#11)
  else if fab.dvalid then some (BitVec.ofBool fab.bytesel ++ 0#1 ++ fab.data)
  else none

def fUnpackFifoContents (din : BitVec 18) (dinValid earlyEof : Bool) : InternalFabric :=
  if dinValid then
    let tag := din.getLsbD
    if earlyEof then
      { data := din.setWidth 16
        dvalid := !(!tag 17 && tag 16)
        sof := !tag 17 && tag 16 && tag 15
        eof := tag 17
        error := !tag 17 && tag 16 && tag 13
        bytesel := tag 17 && tag 16 }
    else
      { data := din.setWidth 16
        dvalid := !tag 16
        sof := tag 16 && tag 15
        eof := tag 16 && tag 14
        error := tag 16 && tag 13
        hasRxTimestamp := tag 16 && tag 12
        rxTimestampValid := tag 16 && tag 11
        bytesel := !tag 16 && tag 17 }
  else {}

/-- The two halves of a word. -/
theorem halves_append (data : BitVec 16) :
    (data.extractLsb' 8 8 ++ data.extractLsb' 0 8 : BitVec 16) = data := by
  rw [BitVec.extractLsb'_append_extractLsb'_eq_extractLsb' (by omega)]
  simp

/-! ### Frames -/

/-- A frame on the transmit side: the words in front of the last one, and that one with
its `bytesel`, or an error in its place. -/
structure PcsFrame where
  words : List (BitVec 16)
  last : Option (BitVec 16 × Bool)
  deriving DecidableEq, Repr

namespace PcsFrame

def wordFabric (data : BitVec 16) : InternalFabric := { dvalid := true, data := data }

def lastFabric (last : Option (BitVec 16 × Bool)) : InternalFabric :=
  match last with
  | some (data, bytesel) => { dvalid := true, eof := true, data := data, bytesel := bytesel }
  | none => { error := true }

/-- A frame as it is written to `pcs_fab_i`. -/
def fabric (f : PcsFrame) : List InternalFabric :=
  { sof := true } :: (f.words.map wordFabric ++ [lastFabric f.last])

def sofEntry : BitVec 18 := 0x18000

def wordEntry (data : BitVec 16) : BitVec 18 := 0b00#2 ++ data

def lastEntry (last : Option (BitVec 16 × Bool)) : BitVec 18 :=
  match last with
  | some (data, bytesel) => 1#1 ++ BitVec.ofBool bytesel ++ data
  | none => 0x12000

/-- The entries of a frame behind its sof. -/
def body (f : PcsFrame) : List (BitVec 18) := f.words.map wordEntry ++ [lastEntry f.last]

def entries (f : PcsFrame) : List (BitVec 18) := sofEntry :: f.body

theorem fabric_entries (f : PcsFrame) :
    f.fabric.filterMap (fPackFifoContents · true) = f.entries := by
  have word : ∀ data, fPackFifoContents (wordFabric data) true = some (wordEntry data) :=
    fun _ => rfl
  have last : fPackFifoContents (lastFabric f.last) true = some (lastEntry f.last) := by
    cases f.last <;> rfl
  have words : (f.words.map wordFabric).filterMap (fPackFifoContents · true) =
      f.words.map wordEntry := by
    rw [List.filterMap_map]
    simp only [Function.comp_def, word, ← List.filterMap_eq_map]
  have head : fPackFifoContents { sof := true } true = some sofEntry := by decide
  rw [fabric, List.filterMap_cons, head, List.filterMap_append, words, List.filterMap_cons, last]
  rfl

end PcsFrame

section Unpack

open PcsFrame

theorem tagged_bit (tag : BitVec 2) (data : BitVec 16) (n : Nat) :
    BitVec.getLsbD (w := 18) (tag ++ data) n =
      if n < 16 then data.getLsbD n else tag.getLsbD (n - 16) :=
  BitVec.getLsbD_append

theorem tagged_data (tag : BitVec 2) (data : BitVec 16) :
    BitVec.setWidth (w := 18) 16 (tag ++ data) = data :=
  BitVec.setWidth_append_eq_right

@[simp] theorem unpack_sof : fUnpackFifoContents sofEntry true true =
    { sof := true, data := 0x8000 } := by decide

@[simp] theorem unpack_word (data : BitVec 16) :
    fUnpackFifoContents (wordEntry data) true true = wordFabric data := by
  simp only [fUnpackFifoContents, wordEntry, wordFabric, tagged_bit, tagged_data]
  rfl

@[simp] theorem unpack_last (data : BitVec 16) (bytesel : Bool) :
    fUnpackFifoContents (lastEntry (some (data, bytesel))) true true =
      lastFabric (some (data, bytesel)) := by
  obtain ⟨tag, tag_eq, high, low⟩ : ∃ tag : BitVec 2, lastEntry (some (data, bytesel)) = tag ++ data ∧
      tag.getLsbD 1 = true ∧ tag.getLsbD 0 = bytesel := by
    cases bytesel
    · exact ⟨0b10, rfl, rfl, rfl⟩
    · exact ⟨0b11, rfl, rfl, rfl⟩
  rw [tag_eq]
  simp [fUnpackFifoContents, lastFabric, tagged_bit, tagged_data, high, low, -BitVec.getLsbD_eq_getElem]

@[simp] theorem unpack_error : fUnpackFifoContents (lastEntry none) true true =
    { error := true, data := 0x2000 } := by decide

@[simp] theorem unpack_invalid (din : BitVec 18) (earlyEof : Bool) :
    fUnpackFifoContents din false earlyEof = {} := rfl

end Unpack

/-- What the receive side's FIFO would store. -/
inductive FabEvent where
  | sof
  | word (data : BitVec 16) (bytesel : Bool)
  | hasRxTimestamp
  | eof
  | error
  deriving DecidableEq, Repr

/-- `f_pack_fifo_contents` takes the flags first; a word counts only without any. -/
def InternalFabric.events (fab : InternalFabric) : List FabEvent :=
  if fab.sof || fab.error || fab.eof || fab.hasRxTimestamp then
    (if fab.sof then [FabEvent.sof] else []) ++ ((if fab.error then [FabEvent.error] else []) ++
      ((if fab.hasRxTimestamp then [FabEvent.hasRxTimestamp] else []) ++ (if fab.eof then [FabEvent.eof] else [])))
  else if fab.dvalid then [FabEvent.word fab.data fab.bytesel] else []

/-! ### The transmit side's surroundings -/

/-- What the transmit FSMs read besides the FIFO's output. -/
structure TxPcsIn where
  written : List InternalFabric := []
  fifoEmpty : Bool
  fifoAlmostEmpty : Bool
  disparity : Bool := false
  anTxEn : Bool := false
  anTxVal : BitVec 16 := 0
  txCal : Bool := false
  rstN : Bool := true
  rstTxclkN : Bool := true
  mcrReset : Bool := false
  mcrPdown : Bool := false
  deriving DecidableEq, Repr

namespace TxPcsIn

def enoughData (i : TxPcsIn) : Bool := !i.fifoEmpty && !i.fifoAlmostEmpty

/-- A cycle of normal operation. -/
structure Plain (i : TxPcsIn) : Prop where
  anTxEn : i.anTxEn = false
  txCal : i.txCal = false
  rstN : i.rstN = true
  rstTxclkN : i.rstTxclkN = true
  mcrReset : i.mcrReset = false
  mcrPdown : i.mcrPdown = false

instance (i : TxPcsIn) : Decidable (Plain i) :=
  decidable_of_iff (i.anTxEn = false ∧ i.txCal = false ∧ i.rstN = true ∧ i.rstTxclkN = true ∧
    i.mcrReset = false ∧ i.mcrPdown = false)
    ⟨fun ⟨an, cal, rst, rstTx, reset, pdown⟩ => ⟨an, cal, rst, rstTx, reset, pdown⟩,
      fun ⟨an, cal, rst, rstTx, reset, pdown⟩ => ⟨an, cal, rst, rstTx, reset, pdown⟩⟩

theorem Plain.running {i : TxPcsIn} (plain : i.Plain) : (!(i.rstTxclkN && !i.mcrReset) || i.mcrPdown) = false := by
  simp [plain.rstTxclkN, plain.mcrReset, plain.mcrPdown]

end TxPcsIn

namespace PcsFrame

/-- The frame is written one entry a cycle. The FIFO has an entry from the next cycle until
`out`, and is above its threshold from `full` until `low`. -/
def feed (f : PcsFrame) (full low out n : Nat) : TxPcsIn where
  written := f.fabric[n]?.toList
  fifoEmpty := n == 0 || out ≤ n
  fifoAlmostEmpty := n < full || low ≤ n

theorem feed_written (f : PcsFrame) (full low out n : Nat) :
    (upTo (f.feed full low out) n).flatMap (·.written) = f.fabric.take n := by
  induction n with
  | zero => rfl
  | succ n ih => rw [upTo_snoc, List.flatMap_append, ih, List.take_add_one]; simp [feed]

section Late

variable (f : PcsFrame) {full low out n : Nat}

theorem feed_late (late : f.fabric.length ≤ n) : (f.feed full low out n).written = [] := by
  simp [feed, late]

theorem feed_low (late : low ≤ n) : (f.feed full low out n).enoughData = false := by
  simp [feed, TxPcsIn.enoughData, late]

theorem feed_idle (late : f.fabric.length ≤ n) (under : low ≤ n) (empty : out ≤ n) :
    f.feed full low out n = { fifoEmpty := true, fifoAlmostEmpty := true } := by
  simp [feed, late, under, empty]

end Late

/-- A frame of 65 bytes. -/
def oddFrame : PcsFrame := ⟨(List.range 32).map (BitVec.ofNat 16), some (0xab00, true)⟩

end PcsFrame

/-- The clock alignment FIFO: its output register and its entries, oldest first. -/
structure TxFifo where
  packedOut : BitVec 18
  entries : List (BitVec 18)
  deriving DecidableEq, Repr

namespace TxFifo

def read (f : TxFifo) (rd : Bool) : TxFifo :=
  if rd then ⟨f.entries.headD f.packedOut, f.entries.tail⟩ else f

def packed (written : List InternalFabric) : List (BitVec 18) :=
  written.filterMap (fPackFifoContents · true)

def write (f : TxFifo) (written : List InternalFabric) : TxFifo :=
  { f with entries := f.entries ++ packed written }

/-- What is stored of frames that are written, with any number of empty cycles between. -/
theorem packed_frames {inputs : List TxPcsIn} {frames : List PcsFrame}
    (written : (inputs.flatMap (·.written)).filter (fun fab => (fPackFifoContents fab true).isSome) =
      frames.flatMap PcsFrame.fabric) :
    inputs.flatMap (packed ·.written) = frames.flatMap PcsFrame.entries := by
  have valid : ((inputs.flatMap (·.written)).filter
      (fun fab => (fPackFifoContents fab true).isSome)).filterMap (fPackFifoContents · true) =
        (inputs.flatMap (·.written)).filterMap (fPackFifoContents · true) := by
    rw [List.filterMap_filter]
    congr 1
    funext fab
    cases fPackFifoContents fab true <;> rfl
  calc inputs.flatMap (packed ·.written)
      = (inputs.flatMap (·.written)).filterMap (fPackFifoContents · true) := by
        rw [List.filterMap_flatMap]
        rfl
    _ = (frames.flatMap PcsFrame.fabric).filterMap (fPackFifoContents · true) := by rw [← valid, written]
    _ = frames.flatMap PcsFrame.entries := by
        rw [List.filterMap_flatMap]
        simp only [PcsFrame.fabric_entries]

/-- The same with more entries behind those it has. -/
def preload (f : TxFifo) (more : List (BitVec 18)) : TxFifo := { f with entries := f.entries ++ more }

/-- Entries that are still to be written make no difference to a reader that never finds
the FIFO empty. -/
theorem read_preload (f : TxFifo) (rd : Bool) (some : rd = true → f.entries ≠ [])
    (written : List InternalFabric) (more : List (BitVec 18)) :
    (f.preload (packed written ++ more)).read rd = ((f.read rd).write written).preload more := by
  cases rd with
  | false => simp [read, preload, write]
  | true =>
      obtain ⟨e, rest, front⟩ := List.exists_cons_of_ne_nil (some rfl)
      simp [read, preload, write, front]

end TxFifo

/-! ### The receive side's surroundings -/

/-- What the receive FSMs read besides the decoded line. -/
structure RxFsmIn where
  rxSynced : Bool := true
  rstNRx : Bool := true
  mcrPdown : Bool := false
  anRxEn : Bool := false
  pcsFifoAlmostfull : Bool := false
  timestampStb : Bool
  timestamp : BitVec 32
  deriving DecidableEq, Repr

/-- The answers of the timestamping unit: the one for the frame being received, which
stands until the next frame starts, and those for the frames to come. -/
structure Stamps where
  current : Option (BitVec 32)
  coming : List (Option (BitVec 32))
  deriving DecidableEq, Repr

namespace Stamps

def input (s : Stamps) : RxFsmIn where
  timestampStb := s.current.isSome
  timestamp := s.current.getD 0

def next (s : Stamps) (sof : Bool) : Stamps :=
  if sof then ⟨s.coming.headD none, s.coming.tail⟩ else s

end Stamps

/-- What is due of a timestamp. -/
def dueEvents (pending : BitVec 3) (timestamp : BitVec 32) : List FabEvent :=
  if pending.getLsbD 0 then [.word (timestamp.extractLsb' 16 16) false]
  else if pending.getLsbD 1 then [.word (timestamp.extractLsb' 0 16) false]
  else if pending.getLsbD 2 then [.eof]
  else []

theorem pending_iff (pending : BitVec 3) : pending ≠ 0#3 ↔
    pending.getLsbD 0 = true ∨ pending.getLsbD 1 = true ∨ pending.getLsbD 2 = true := by
  revert pending
  decide

/-- The end of a good frame. -/
def endEvents (stamp : Option (BitVec 32)) : List FabEvent :=
  match stamp with
  | none => [.eof]
  | some timestamp =>
      [.hasRxTimestamp, .word (timestamp.extractLsb' 16 16) false,
        .word (timestamp.extractLsb' 0 16) false, .eof]

end WrCores.Endpoint
