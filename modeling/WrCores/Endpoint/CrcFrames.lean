import WrCores.Clocked.Run
import WrCores.Endpoint.Crc32
import WrCores.Endpoint.Pkg
import WrCores.Fabric.Pkg

/-!
The frame check sequence with `g_use_new_crc`: ep_tx_crc_inserter.vhd, and the check of
ep_rx_crc_size_check.vhd without its size counters and its queue. The transmitter updates
`crc_n_value` at the falling edge in the middle of a cycle; a step here is a whole cycle,
and the outputs are those at its end.
-/

namespace WrCores.Endpoint

open Clocked
open Fabric (cWrfData cWrfOob)

/-! ### Bytes and words -/

/-- A word with its `bytesel`; half a word counts without its low byte. -/
def trimWord (w : BitVec 16 × Bool) : BitVec 16 × Bool :=
  if w.2 then (w.1.extractLsb' 8 8 ++ 0#8, true) else w

/-- Bytes as words. -/
def wordsOf : List (BitVec 8) → List (BitVec 16 × Bool)
  | [] => []
  | [x] => [(x ++ 0#8, true)]
  | x :: y :: rest => (x ++ y, false) :: wordsOf rest

/-- The bytes that fill whole words, and the one that is left over. -/
def evenPart : List (BitVec 8) → List (BitVec 8)
  | [] => []
  | [_] => []
  | x :: y :: rest => x :: y :: evenPart rest

def oddPart : List (BitVec 8) → Option (BitVec 8)
  | [] => none
  | [x] => some x
  | _ :: _ :: rest => oddPart rest

theorem parts_append (bytes : List (BitVec 8)) : evenPart bytes ++ (oddPart bytes).toList = bytes := by
  induction bytes using List.twoStepInduction with
  | nil => rfl
  | singleton x => rfl
  | cons_cons x y rest ih _ => simp [evenPart, oddPart, ih]

theorem wordsOf_append (bytes more : List (BitVec 8)) :
    wordsOf (evenPart bytes ++ more) = wordsOf (evenPart bytes) ++ wordsOf more := by
  induction bytes using List.twoStepInduction with
  | nil => rfl
  | singleton x => rfl
  | cons_cons x y rest ih _ => simp [evenPart, wordsOf, ih]

theorem wordsOf_empty {bytes : List (BitVec 8)} (empty : wordsOf bytes = []) : bytes = [] := by
  match bytes with
  | [] => rfl
  | [x] => simp [wordsOf] at empty
  | x :: y :: rest => simp [wordsOf] at empty

theorem trimWord_full {data x : BitVec 16} {bytesel : Bool} (same : trimWord (data, bytesel) = (x, false)) :
    bytesel = false ∧ data = x := by
  cases bytesel with
  | false => simpa [trimWord] using same
  | true => simp [trimWord] at same

theorem trimWord_half {data : BitVec 16} {bytesel : Bool} {x : BitVec 8}
    (same : trimWord (data, bytesel) = (x ++ 0#8, true)) : bytesel = true ∧ data.extractLsb' 8 8 = x := by
  cases bytesel with
  | false => simp [trimWord] at same
  | true =>
      have high : BitVec.extractLsb' (n := 16) 8 8 (data.extractLsb' 8 8 ++ 0#8) = data.extractLsb' 8 8 :=
        BitVec.extractLsb'_append_eq_left
      have high' : BitVec.extractLsb' (n := 16) 8 8 (x ++ 0#8) = x := BitVec.extractLsb'_append_eq_left
      simp only [trimWord, if_true, Prod.mk.injEq, and_true] at same
      exact ⟨rfl, by rw [← high, same, high']⟩

/-! ### The transmitter -/

inductive TxCrcState where
  | idle
  | waitCrc
  | embed1
  | embed2
  | embed3
  deriving DecidableEq, Repr

structure TxCrcIn where
  fab : InternalFabric
  srcDreq : Bool
  rstN : Bool := true
  deriving DecidableEq, Repr

structure TxCrcInserter where
  state : TxCrcState
  oddLength : Bool
  storedMsb : BitVec 8
  srcDreqD0 : Bool
  crcPValue : BitVec 32
  crcNValue : BitVec 32
  deriving DecidableEq, Repr

namespace TxCrcInserter

def inPayload (s : TxCrcInserter) : Bool := s.state == .idle || s.state == .waitCrc

def crcGenReset (i : TxCrcIn) : Bool := !i.rstN || i.fab.sof

def crcGenEnable (s : TxCrcInserter) (i : TxCrcIn) : Bool := i.fab.dvalid && s.inPayload

/-- `crc_n_value` behind the falling edge. -/
def fallen (s : TxCrcInserter) (i : TxCrcIn) : BitVec 32 :=
  if crcGenReset i then cCrc32InitValue
  else if s.crcGenEnable i then fUpdateCrc32D8 s.crcPValue (i.fab.data.extractLsb' 8 8)
  else s.crcNValue

def crcValue (s : TxCrcInserter) (i : TxCrcIn) : BitVec 32 :=
  if s.oddLength then s.fallen i else s.crcPValue

/-- `src_fab_o`; the bits the source sets to 'X' are zero. -/
def srcFab (s : TxCrcInserter) (i : TxCrcIn) : InternalFabric :=
  let crc := s.crcValue i
  let passed := { i.fab with addr := cWrfData }
  let embedded := { passed with dvalid := s.srcDreqD0, bytesel := false, eof := false }
  match s.state with
  | .embed1 =>
      { embedded with
        data := if s.oddLength then s.storedMsb ++ crc.extractLsb' 24 8 else crc.extractLsb' 16 16 }
  | .embed2 =>
      if s.oddLength then { embedded with data := crc.extractLsb' 8 16 }
      else { embedded with data := crc.extractLsb' 0 16, eof := true }
  | .embed3 => { embedded with data := crc.extractLsb' 0 8 ++ 0#8, bytesel := true, eof := true }
  | _ => { passed with bytesel := false, dvalid := i.fab.dvalid && !i.fab.bytesel, eof := false }

/-- `p_crc_fsm`. -/
def fsmStep (s : TxCrcInserter) (i : TxCrcIn) : TxCrcInserter :=
  if !i.rstN || i.fab.error then { s with state := .idle }
  else
    match s.state with
    | .idle => { s with oddLength := false, state := if i.fab.sof then .waitCrc else .idle }
    | .waitCrc =>
        { s with
          oddLength := s.oddLength || i.fab.bytesel
          storedMsb := if i.fab.bytesel then i.fab.data.extractLsb' 8 8 else s.storedMsb
          state := if i.fab.eof || i.fab.addr == cWrfOob then .embed1 else .waitCrc }
    | .embed1 => if s.srcDreqD0 then { s with state := .embed2 } else s
    | .embed2 =>
        if s.srcDreqD0 then { s with state := if s.oddLength then .embed3 else .idle } else s
    | .embed3 => if s.srcDreqD0 then { s with state := .idle } else s

def step (s : TxCrcInserter) (i : TxCrcIn) : TxCrcInserter :=
  { s.fsmStep i with
    srcDreqD0 := i.srcDreq
    crcNValue := s.fallen i
    crcPValue :=
      if crcGenReset i then cCrc32InitValue
      else if s.crcGenEnable i && !i.fab.bytesel then
        fUpdateCrc32D8 (s.fallen i) (i.fab.data.extractLsb' 0 8)
      else s.crcPValue }

/-- The word that goes out in a cycle. -/
def sent (s : TxCrcInserter) (i : TxCrcIn) : List (BitVec 16 × Bool) :=
  if (s.srcFab i).dvalid then [((s.srcFab i).data, (s.srcFab i).bytesel)] else []

end TxCrcInserter

/-- The word that comes in. -/
def InternalFabric.dataWord (fab : InternalFabric) : List (BitVec 16 × Bool) :=
  if fab.dvalid && fab.addr == cWrfData then [(fab.data, fab.bytesel)] else []

/-! ### The receiver -/

structure RxCrcIn where
  fab : InternalFabric
  rstN : Bool := true
  deriving DecidableEq, Repr

/-- The registers of `p_check_crc`. -/
structure RxCrcCheck where
  crcCur : BitVec 32
  crcLastIsOdd : Bool
  deriving DecidableEq, Repr

namespace RxCrcCheck

def crcGenReset (i : RxCrcIn) : Bool := i.fab.sof || !i.rstN

def crcGenEnable (i : RxCrcIn) : Bool := i.fab.addr == cWrfData && i.fab.dvalid

def crcInData (i : RxCrcIn) : BitVec 16 :=
  i.fab.data.extractLsb' 8 8 ++ if i.fab.bytesel then 0#8 else i.fab.data.extractLsb' 0 8

def step (s : RxCrcCheck) (i : RxCrcIn) : RxCrcCheck :=
  if crcGenReset i then { s with crcCur := cCrc32InitValue }
  else if crcGenEnable i then
    { crcCur := fUpdateCrc32D16 s.crcCur (crcInData i), crcLastIsOdd := i.fab.bytesel }
  else s

def crcMatch (s : RxCrcCheck) : Bool :=
  (!s.crcLastIsOdd && s.crcCur == cCrc32ResidueFull) || (s.crcLastIsOdd && s.crcCur == cCrc32ResidueHalf)

end RxCrcCheck

/-! ### A frame through the transmitter -/

namespace TxCrcInserter

/-- A cycle of a frame. -/
structure Body (i : TxCrcIn) : Prop where
  rstN : i.rstN = true
  sof : i.fab.sof = false
  error : i.fab.error = false
  addr : i.fab.dvalid = true → i.fab.addr = cWrfData
  bytesel : i.fab.bytesel = true → i.fab.dvalid = true

/-- A cycle in which the source of the frames waits. -/
structure Quiet (i : TxCrcIn) : Prop where
  rstN : i.rstN = true
  sof : i.fab.sof = false
  error : i.fab.error = false
  dvalid : i.fab.dvalid = false

def crcOf (bytes : List (BitVec 8)) : BitVec 32 := bytes.foldl fUpdateCrc32D8 cCrc32InitValue

/-- Behind the bytes `whole`, which fill words, and perhaps one more. -/
structure Holds (state : TxCrcState) (whole : List (BitVec 8)) (last : Option (BitVec 8))
    (s : TxCrcInserter) : Prop where
  state : s.state = state
  odd : s.oddLength = last.isSome
  value : (if s.oddLength then s.crcNValue else s.crcPValue) = crcOf (whole ++ last.toList)
  msb : ∀ x ∈ last, s.storedMsb = x

section Edge

variable {s : TxCrcInserter} {i : TxCrcIn} {whole : List (BitVec 8)}

/-- A frame ends with `eof`, or where the out-of-band words start. -/
def closes (i : TxCrcIn) : Bool := i.fab.eof || i.fab.addr == cWrfOob

def next (i : TxCrcIn) : TxCrcState := if closes i then .embed1 else .waitCrc

theorem body_step (body : Body i) (state : s.state = .waitCrc) : s.step i =
    { state := next i
      oddLength := s.oddLength || i.fab.bytesel
      storedMsb := if i.fab.bytesel then i.fab.data.extractLsb' 8 8 else s.storedMsb
      srcDreqD0 := i.srcDreq
      crcNValue := if i.fab.dvalid then fUpdateCrc32D8 s.crcPValue (i.fab.data.extractLsb' 8 8)
        else s.crcNValue
      crcPValue := if i.fab.dvalid && !i.fab.bytesel then
          fUpdateCrc32D8 (fUpdateCrc32D8 s.crcPValue (i.fab.data.extractLsb' 8 8))
            (i.fab.data.extractLsb' 0 8)
        else s.crcPValue } := by
  cases valid : i.fab.dvalid <;>
    simp [step, fsmStep, fallen, crcGenReset, crcGenEnable, inPayload, state, body.rstN, body.sof,
      body.error, next, closes, valid]

theorem body_sent (state : s.state = .waitCrc) :
    s.sent i = if i.fab.dvalid && !i.fab.bytesel then [(i.fab.data, false)] else [] := by
  simp [sent, srcFab, state]

theorem body_quiet (body : Body i) {last : Option (BitVec 8)} (held : Holds .waitCrc whole last s)
    (none : i.fab.dvalid = false) : Holds (next i) whole last (s.step i) ∧ s.sent i = [] := by
  have unset : i.fab.bytesel = false := by
    by_contra set
    exact absurd (body.bytesel (by simpa using set)) (by simp [none])
  have stepped := body_step body held.state
  refine ⟨⟨by simp [stepped], ?_, ?_, ?_⟩, by simp [body_sent held.state, none]⟩
  · simpa [stepped, unset] using held.odd
  · simpa [stepped, unset, none] using held.value
  · simpa [stepped, unset] using held.msb

theorem body_word (body : Body i) (held : Holds .waitCrc whole none s) (valid : i.fab.dvalid = true)
    (full : i.fab.bytesel = false) (x y : BitVec 8) (data : i.fab.data = x ++ y) :
    Holds (next i) (whole ++ [x, y]) none (s.step i) ∧ s.sent i = [(x ++ y, false)] := by
  have stepped := body_step body held.state
  have even : s.oddLength = false := held.odd
  have high : BitVec.extractLsb' (n := 16) 8 8 (x ++ y) = x := BitVec.extractLsb'_append_eq_left
  have low : BitVec.extractLsb' (n := 16) 0 8 (x ++ y) = y := BitVec.extractLsb'_append_eq_right
  have value : s.crcPValue = crcOf whole := by simpa [even] using held.value
  refine ⟨⟨by simp [stepped], by simp [stepped, even, full], ?_, by simp⟩, ?_⟩
  · simp [stepped, even, full, valid, data, high, low, value, crcOf]
  · simp [body_sent held.state, valid, full, data]

theorem body_half (body : Body i) (held : Holds .waitCrc whole none s) (half : i.fab.bytesel = true)
    (x : BitVec 8) (data : i.fab.data.extractLsb' 8 8 = x) :
    Holds (next i) whole (some x) (s.step i) ∧ s.sent i = [] := by
  have valid := body.bytesel half
  have stepped := body_step body held.state
  have even : s.oddLength = false := held.odd
  have value : s.crcPValue = crcOf whole := by simpa [even] using held.value
  refine ⟨⟨by simp [stepped], by simp [stepped, half], ?_, by simp [stepped, half, data]⟩, ?_⟩
  · simp [stepped, half, valid, data, value, crcOf]
  · simp [body_sent held.state, half]

end Edge

/-- The words of a frame's cycles. -/
def wordsIn (cycles : List TxCrcIn) : List (BitVec 16 × Bool) := cycles.flatMap (·.fab.dataWord)

section Run

variable {s : TxCrcInserter} {whole : List (BitVec 8)}

theorem dataWord_eq {i : TxCrcIn} (body : Body i) :
    i.fab.dataWord = if i.fab.dvalid then [(i.fab.data, i.fab.bytesel)] else [] := by
  cases valid : i.fab.dvalid with
  | false => simp [InternalFabric.dataWord, valid]
  | true => simp [InternalFabric.dataWord, valid, body.addr valid]

/-- What the registers hold when the bytes `rest` are still to come; behind half a word
there are none. -/
def Expects (state : TxCrcState) (whole : List (BitVec 8)) (last : Option (BitVec 8)) (rest : List (BitVec 8))
    (s : TxCrcInserter) : Prop :=
  Holds state whole last s ∧ (last.isSome → rest = [])

theorem body_edge {i : TxCrcIn} (body : Body i) {last : Option (BitVec 8)} {rest : List (BitVec 8)}
    {words : List (BitVec 16 × Bool)} (carries : (i.fab.dataWord ++ words).map trimWord = wordsOf rest)
    (expects : Expects .waitCrc whole last rest s) :
    ∃ taken last' left, evenPart rest = taken ++ evenPart left ∧
      wordsOf (evenPart rest) = wordsOf taken ++ wordsOf (evenPart left) ∧
      last.or (oddPart rest) = last'.or (oddPart left) ∧ words.map trimWord = wordsOf left ∧
      Expects (next i) (whole ++ taken) last' left (s.step i) ∧ s.sent i = wordsOf taken := by
  obtain ⟨held, stop⟩ := expects
  rw [dataWord_eq body] at carries
  cases valid : i.fab.dvalid with
  | false =>
      obtain ⟨held, silent⟩ := body_quiet body held valid
      exact ⟨[], last, rest, rfl, rfl, rfl, by simpa [valid] using carries, ⟨by simpa using held, stop⟩, silent⟩
  | true =>
      rw [valid, if_pos rfl, List.singleton_append, List.map_cons] at carries
      cases last with
      | some x => simp [stop rfl, wordsOf] at carries
      | none =>
          match rest with
          | [] => simp [wordsOf] at carries
          | [x] =>
              obtain ⟨word, later⟩ := List.cons.inj carries
              obtain ⟨half, data⟩ := trimWord_half word
              obtain ⟨held, silent⟩ := body_half body held half x data
              exact ⟨[], some x, [], rfl, rfl, rfl, later, ⟨by simpa using held, fun _ => rfl⟩, silent⟩
          | x :: y :: rest =>
              obtain ⟨word, later⟩ := List.cons.inj carries
              obtain ⟨full, data⟩ := trimWord_full word
              obtain ⟨held, out⟩ := body_word body held valid full x y data
              exact ⟨[x, y], none, rest, rfl, rfl, rfl, later, ⟨held, by simp⟩, out⟩

/-- The cycles of a frame, up to the one with its end. -/
theorem body_run (cycles : List TxCrcIn) (final : TxCrcIn) (body : ∀ i ∈ cycles ++ [final], Body i)
    (inside : ∀ i ∈ cycles, closes i = false) (ends : closes final = true) {last : Option (BitVec 8)}
    {rest : List (BitVec 8)} (carries : (wordsIn (cycles ++ [final])).map trimWord = wordsOf rest)
    (expects : Expects .waitCrc whole last rest s) :
    Holds .embed1 (whole ++ evenPart rest) (last.or (oddPart rest)) (run step s (cycles ++ [final])) ∧
      collect step sent s (cycles ++ [final]) = wordsOf (evenPart rest) := by
  induction cycles generalizing s whole last rest with
  | nil =>
      obtain ⟨taken, last', left, split, words, odd, later, ⟨held, stop⟩, out⟩ :=
        body_edge (body final (by simp)) carries expects
      -- No word is left for later cycles.
      have none : left = [] := wordsOf_empty later.symm
      have closed : next final = .embed1 := by simp [next, ends]
      rw [none] at split words odd
      rw [closed] at held
      constructor
      · rw [split, odd]
        simpa [evenPart, oddPart] using held
      · rw [words]
        simpa [evenPart, wordsOf] using out
  | cons i cycles ih =>
      obtain ⟨taken, last', left, split, words, odd, later, next_expects, out⟩ :=
        body_edge (body i (by simp)) carries expects
      have waits : next i = .waitCrc := by simp [next, inside i (by simp)]
      rw [waits] at next_expects
      obtain ⟨held, shown⟩ := ih (fun j member => body j (by simp at member ⊢; tauto))
        (fun j member => inside j (by simp [member])) later next_expects
      rw [List.append_assoc, ← split, ← odd] at held
      refine ⟨held, ?_⟩
      rw [List.cons_append, collect_cons, out, shown, words]

end Run

/-! ### The embedded words -/

/-- The words that remain to be embedded. -/
def toEmbed (s : TxCrcInserter) : List (BitVec 16 × Bool) :=
  let crc := if s.oddLength then s.crcNValue else s.crcPValue
  let words :=
    if s.oddLength then
      [(s.storedMsb ++ crc.extractLsb' 24 8, false), (crc.extractLsb' 8 16, false),
        (crc.extractLsb' 0 8 ++ 0#8, true)]
    else [(crc.extractLsb' 16 16, false), (crc.extractLsb' 0 16, false)]
  match s.state with
  | .embed1 => words
  | .embed2 => words.drop 1
  | .embed3 => words.drop 2
  | _ => []

/-- Only a frame with an odd number of bytes takes the third word. -/
structure Embeds (s : TxCrcInserter) : Prop where
  past : s.state ≠ .waitCrc
  third : s.state = .embed3 → s.oddLength = true

section Embed

variable {s : TxCrcInserter} {i : TxCrcIn}

theorem quiet_step (quiet : Quiet i) (embeds : Embeds s) : s.step i =
    { s with
      state := if s.srcDreqD0 then
          match s.state with
          | .embed1 => .embed2
          | .embed2 => if s.oddLength then .embed3 else .idle
          | _ => .idle
        else s.state
      oddLength := s.oddLength && s.state != .idle
      srcDreqD0 := i.srcDreq } := by
  cases state : s.state with
  | waitCrc => exact absurd state embeds.past
  | _ =>
      cases asked : s.srcDreqD0 <;>
        simp [step, fsmStep, fallen, crcGenReset, crcGenEnable, state, asked, quiet.rstN, quiet.sof,
          quiet.error, quiet.dvalid]

theorem quiet_embeds (quiet : Quiet i) (embeds : Embeds s) : Embeds (s.step i) := by
  have odd := embeds.third
  rw [quiet_step quiet embeds]
  cases state : s.state with
  | waitCrc => exact absurd state embeds.past
  | _ =>
      constructor <;> cases asked : s.srcDreqD0 <;> cases length : s.oddLength <;> simp_all

/-- A cycle embeds the next word, if the sink asked for one. -/
theorem quiet_sent (quiet : Quiet i) (embeds : Embeds s) :
    toEmbed s = s.sent i ++ toEmbed (s.step i) := by
  have odd := embeds.third
  rw [quiet_step quiet embeds]
  cases state : s.state with
  | waitCrc => exact absurd state embeds.past
  | _ =>
      cases asked : s.srcDreqD0 <;> cases length : s.oddLength <;>
        simp_all [toEmbed, sent, srcFab, crcValue, fallen, crcGenReset, crcGenEnable, quiet.rstN, quiet.sof,
          quiet.dvalid]

theorem quiet_length (quiet : Quiet i) (embeds : Embeds s) :
    (toEmbed (s.step i)).length = (toEmbed s).length - (if s.srcDreqD0 then 1 else 0) := by
  have odd := embeds.third
  rw [quiet_step quiet embeds]
  cases state : s.state with
  | waitCrc => exact absurd state embeds.past
  | _ => cases asked : s.srcDreqD0 <;> cases length : s.oddLength <;> simp_all [toEmbed]

theorem toEmbed_run (tail : List TxCrcIn) (quiet : ∀ i ∈ tail, Quiet i) (embeds : Embeds s) :
    toEmbed s = collect step sent s tail ++ toEmbed (run step s tail) ∧
      (toEmbed (run step s tail)).length =
        (toEmbed s).length - ((s.srcDreqD0 :: tail.map (·.srcDreq)).dropLast.count true) := by
  induction tail generalizing s with
  | nil => simp
  | cons i tail ih =>
      have here := quiet i (by simp)
      obtain ⟨kept, length⟩ := ih (fun j member => quiet j (by simp [member])) (quiet_embeds here embeds)
      constructor
      · rw [quiet_sent here embeds, kept]
        simp
      · have asked : (s.step i).srcDreqD0 = i.srcDreq := rfl
        rw [run_cons, length, quiet_length here embeds, asked, List.map_cons, List.dropLast_cons_cons,
          List.count_cons]
        cases s.srcDreqD0 with
        | false => simp
        | true =>
            simp
            omega

theorem toEmbed_held {whole : List (BitVec 8)} {last : Option (BitVec 8)}
    (held : Holds .embed1 whole last s) :
    toEmbed s = wordsOf (last.toList ++ crcBytes (crcOf (whole ++ last.toList))) := by
  have joined : ∀ (v : BitVec 32) (start : Nat),
      v.extractLsb' (start + 8) 8 ++ v.extractLsb' start 8 = v.extractLsb' start 16 := by
    intro v start
    exact BitVec.extractLsb'_append_extractLsb'_eq_extractLsb' rfl
  have value := held.value
  have odd := held.odd
  cases last with
  | none =>
      simp only [Option.isSome_none] at odd
      simp only [odd, Bool.false_eq_true, if_false, Option.toList_none, List.append_nil] at value
      simp [toEmbed, held.state, odd, value, wordsOf, crcBytes, joined _ 16, joined _ 0]
  | some x =>
      simp only [Option.isSome_some] at odd
      simp only [odd, if_true] at value
      simp [toEmbed, held.state, odd, value, held.msb x rfl, wordsOf, crcBytes, joined _ 8]

end Embed

/-- The cycles of a frame: its start, its words, and the wait for the check sequence, in
which the sink asks for the words that are added. -/
structure Offers (bytes : List (BitVec 8)) (start : TxCrcIn) (cycles : List TxCrcIn) (final : TxCrcIn)
    (tail : List TxCrcIn) : Prop where
  rstN : start.rstN = true
  sof : start.fab.sof = true
  error : start.fab.error = false
  dvalid : start.fab.dvalid = false
  body : ∀ i ∈ cycles ++ [final], Body i
  inside : ∀ i ∈ cycles, closes i = false
  ends : closes final = true
  words : (wordsIn (cycles ++ [final])).map trimWord = wordsOf bytes
  quiet : ∀ i ∈ tail, Quiet i
  drained : 3 ≤ ((final :: tail).map (·.srcDreq)).dropLast.count true

theorem start_expects {s : TxCrcInserter} {start : TxCrcIn} {bytes : List (BitVec 8)} (idle : s.state = .idle)
    (rstN : start.rstN = true) (sof : start.fab.sof = true) (error : start.fab.error = false) :
    Expects .waitCrc [] none bytes (s.step start) := by
  refine ⟨⟨?_, ?_, ?_, by simp⟩, by simp⟩ <;>
    simp [step, fsmStep, crcGenReset, crcOf, idle, rstN, sof, error]

/-- A frame leaves with the bytes of its check sequence behind it. -/
theorem frame_sent {s : TxCrcInserter} {bytes : List (BitVec 8)} {start final : TxCrcIn}
    {cycles tail : List TxCrcIn} (idle : s.state = .idle) (offers : Offers bytes start cycles final tail) :
    collect step sent s (start :: (cycles ++ [final]) ++ tail) =
      wordsOf (bytes ++ crcBytes (crcOf bytes)) := by
  have silent : s.sent start = [] := by simp [sent, srcFab, idle, offers.dvalid]
  obtain ⟨held, shown⟩ := body_run cycles final offers.body offers.inside offers.ends offers.words
    (start_expects idle offers.rstN offers.sof offers.error)
  rw [List.nil_append, Option.none_or] at held
  have words := toEmbed_held held
  rw [parts_append] at words
  have asked : (run step (s.step start) (cycles ++ [final])).srcDreqD0 = final.srcDreq := by
    rw [run_append, run_cons, run_nil]
    rfl
  obtain ⟨kept, length⟩ := toEmbed_run tail offers.quiet (s := run step (s.step start) (cycles ++ [final]))
    ⟨by simp [held.state], by simp [held.state]⟩
  -- The sink has asked for all of the words.
  have short : (toEmbed (run step (s.step start) (cycles ++ [final]))).length ≤ 3 := by
    simp only [toEmbed, held.state]
    split <;> simp
  have drained := offers.drained
  rw [List.map_cons, ← asked] at drained
  have none := List.eq_nil_of_length_eq_zero (length.trans (by omega))
  rw [List.cons_append, collect_cons, collect_append, silent, shown, List.nil_append]
  rw [none, List.append_nil, words] at kept
  rw [← kept, ← wordsOf_append, ← List.append_assoc, parts_append]

end TxCrcInserter

/-! ### A frame through the receiver -/

namespace RxCrcCheck

/-- The registers behind the words of the bytes. -/
def taken (s : RxCrcCheck) : List (BitVec 8) → RxCrcCheck
  | [] => s
  | [x] => { crcCur := fUpdateCrc32D8 (fUpdateCrc32D8 s.crcCur x) 0, crcLastIsOdd := true }
  | x :: y :: rest =>
      taken { crcCur := fUpdateCrc32D8 (fUpdateCrc32D8 s.crcCur x) y, crcLastIsOdd := false } rest

theorem taken_even {bytes : List (BitVec 8)} (even : bytes.length % 2 = 0) (nonempty : bytes ≠ [])
    (s : RxCrcCheck) :
    taken s bytes = { crcCur := bytes.foldl fUpdateCrc32D8 s.crcCur, crcLastIsOdd := false } := by
  induction bytes using List.twoStepInduction generalizing s with
  | nil => exact absurd rfl nonempty
  | singleton x => simp at even
  | cons_cons x y rest ih _ =>
      rw [taken]
      by_cases past : rest = []
      · simp [past, taken]
      · rw [ih (by simp only [List.length_cons] at even; omega) past, List.foldl_cons, List.foldl_cons]

theorem taken_odd {bytes : List (BitVec 8)} (odd : bytes.length % 2 = 1) (s : RxCrcCheck) :
    taken s bytes =
      { crcCur := fUpdateCrc32D8 (bytes.foldl fUpdateCrc32D8 s.crcCur) 0, crcLastIsOdd := true } := by
  induction bytes using List.twoStepInduction generalizing s with
  | nil => simp at odd
  | singleton x => rfl
  | cons_cons x y rest ih _ => rw [taken, ih (by simp only [List.length_cons] at odd; omega), List.foldl_cons,
    List.foldl_cons]

/-- A cycle behind the start of a frame. -/
def Inside (i : RxCrcIn) : Prop := i.rstN = true ∧ i.fab.sof = false

variable {s : RxCrcCheck} {i : RxCrcIn}

theorem inside_step (inside : Inside i) : s.step i =
    if i.fab.dvalid && i.fab.addr == cWrfData then
      { crcCur := fUpdateCrc32D16 s.crcCur (crcInData i), crcLastIsOdd := i.fab.bytesel }
    else s := by
  simp [step, crcGenReset, crcGenEnable, inside.1, inside.2, and_comm]

theorem crcInData_full {x y : BitVec 8} (full : i.fab.bytesel = false) (data : i.fab.data = x ++ y) :
    crcInData i = x ++ y := by
  have high : BitVec.extractLsb' (n := 16) 8 8 (x ++ y) = x := BitVec.extractLsb'_append_eq_left
  have low : BitVec.extractLsb' (n := 16) 0 8 (x ++ y) = y := BitVec.extractLsb'_append_eq_right
  simp [crcInData, full, data, high, low]

theorem taken_run (cycles : List RxCrcIn) (inside : ∀ i ∈ cycles, Inside i) {bytes : List (BitVec 8)}
    (carries : (cycles.flatMap (·.fab.dataWord)).map trimWord = wordsOf bytes) :
    run step s cycles = taken s bytes := by
  induction cycles generalizing s bytes with
  | nil =>
      have none : bytes = [] := wordsOf_empty carries.symm
      rw [none]
      rfl
  | cons i cycles ih =>
      have later := fun j (member : j ∈ cycles) => inside j (by simp [member])
      rw [run_cons, inside_step (inside i (by simp))]
      cases valid : i.fab.dvalid && i.fab.addr == cWrfData with
      | false =>
          have none : i.fab.dataWord = [] := by rw [InternalFabric.dataWord, valid, if_neg Bool.false_ne_true]
          exact ih later (by simpa [none] using carries)
      | true =>
          rw [if_pos rfl]
          simp only [List.flatMap_cons, InternalFabric.dataWord, valid, if_true, List.singleton_append,
            List.map_cons] at carries
          match bytes with
          | [] => simp [wordsOf] at carries
          | [x] =>
              obtain ⟨word, rest⟩ := List.cons.inj carries
              obtain ⟨half, data⟩ := trimWord_half word
              have padded : crcInData i = x ++ 0#8 := by simp [crcInData, half, data]
              rw [@ih _ later [] rest, padded, crc32_word, half, taken, taken]
              rfl
          | x :: y :: bytes =>
              obtain ⟨word, rest⟩ := List.cons.inj carries
              obtain ⟨full, data⟩ := trimWord_full word
              rw [ih later rest, crcInData_full full data, crc32_word, full, taken.eq_3]

/-- The cycles of a frame with these bytes. -/
structure Offers (bytes : List (BitVec 8)) (start : RxCrcIn) (cycles : List RxCrcIn) : Prop where
  sof : start.fab.sof = true
  inside : ∀ i ∈ cycles, Inside i
  words : (cycles.flatMap (·.fab.dataWord)).map trimWord = wordsOf bytes

/-- What `crc_cur` should hold. -/
def residue (length : Nat) : BitVec 32 := if length % 2 = 0 then cCrc32ResidueFull else cCrc32ResidueHalf

theorem residue_iff (length : Nat) (c : BitVec 32) :
    (if length % 2 = 0 then c else fUpdateCrc32D8 c 0) = residue length ↔ c = cCrc32ResidueFull := by
  rw [residue]
  split
  · rfl
  · rw [← crc32_residue_half]
    exact ⟨crc32_injective, congrArg (fUpdateCrc32D8 · 0)⟩

/-- The check passes on the residue, and on nothing else. -/
theorem match_iff {bytes : List (BitVec 8)} {start : RxCrcIn} {cycles : List RxCrcIn}
    (nonempty : bytes ≠ []) (offers : Offers bytes start cycles) :
    ((run step s (start :: cycles)).crcMatch = true ↔
      (run step s (start :: cycles)).crcCur = residue bytes.length) ∧
    ((run step s (start :: cycles)).crcCur = residue bytes.length ↔
      bytes.foldl fUpdateCrc32D8 cCrc32InitValue = cCrc32ResidueFull) := by
  have init : (s.step start).crcCur = cCrc32InitValue := by simp [step, crcGenReset, offers.sof]
  rw [run_cons, taken_run cycles offers.inside offers.words, ← residue_iff bytes.length]
  by_cases even : bytes.length % 2 = 0
  · rw [taken_even even nonempty, init]
    simp [crcMatch, residue, even]
  · have odd : bytes.length % 2 = 1 := by omega
    rw [taken_odd odd, init]
    simp [crcMatch, residue, odd]

end RxCrcCheck

/-! ### Changes -/

/-- The bytes differ, but only within four that follow each other. -/
structure Corrupted (bytes bytes' : List (BitVec 8)) : Prop where
  length : bytes'.length = bytes.length
  differs : bytes' ≠ bytes
  confined : ∃ i, ∀ j, j < i ∨ i + 4 ≤ j → bytes'[j]? = bytes[j]?

/-- The window fits into the frame. -/
theorem Corrupted.window {bytes bytes' : List (BitVec 8)} (changed : Corrupted bytes bytes')
    (long : 4 ≤ bytes.length) : ∃ first four four' rest, bytes = first ++ four ++ rest ∧
      bytes' = first ++ four' ++ rest ∧ four.length = 4 ∧ four'.length = 4 := by
  obtain ⟨i, confined⟩ := changed.confined
  have same := changed.length
  let k := min i (bytes.length - 4)
  have split : ∀ l : List (BitVec 8), l = l.take k ++ (l.drop k).take 4 ++ l.drop (k + 4) := by
    intro l
    rw [List.append_assoc, ← List.drop_drop, List.take_append_drop, List.take_append_drop]
  refine ⟨bytes.take k, (bytes.drop k).take 4, (bytes'.drop k).take 4, bytes.drop (k + 4), split bytes, ?_,
    by simp; omega, by simp; omega⟩
  have before : bytes'.take k = bytes.take k := by
    apply List.ext_getElem?
    intro j
    rw [List.getElem?_take, List.getElem?_take]
    by_cases under : j < k
    · rw [if_pos under, if_pos under, confined j (.inl (by omega))]
    · rw [if_neg under, if_neg under]
  have behind : bytes'.drop (k + 4) = bytes.drop (k + 4) := by
    apply List.ext_getElem?
    intro j
    rw [List.getElem?_drop, List.getElem?_drop]
    by_cases past : bytes.length ≤ k + 4 + j
    · rw [List.getElem?_eq_none past, List.getElem?_eq_none (by omega)]
    · exact confined _ (.inr (by omega))
  rw [← before, ← behind]
  exact split bytes'

theorem Corrupted.caught {bytes bytes' : List (BitVec 8)} (changed : Corrupted bytes bytes')
    (long : 4 ≤ bytes.length) (c : BitVec 32) :
    bytes'.foldl fUpdateCrc32D8 c ≠ bytes.foldl fUpdateCrc32D8 c := by
  intro same
  obtain ⟨first, four, four', rest, whole, whole', length, length'⟩ := changed.window long
  rw [whole, whole', List.foldl_append, List.foldl_append, List.foldl_append, List.foldl_append] at same
  have windows := crc32_four length' length (crc32_fold_injective rest same)
  exact changed.differs (by rw [whole, whole', windows])

/-! ### Both sides -/

/-- Transmitter and receiver compute one checksum: a word is its two bytes, a frame that leaves
the transmitter passes the check, and one with a change in four bytes that follow each other
does not. -/
theorem crc_protects_frames :
    (∀ c hi lo, fUpdateCrc32D16 c (hi ++ lo) = fUpdateCrc32D8 (fUpdateCrc32D8 c hi) lo) ∧
    ∀ (bytes : List (BitVec 8)) (tx : TxCrcInserter) (start final : TxCrcIn) (cycles tail : List TxCrcIn),
      bytes ≠ [] → tx.state = .idle → TxCrcInserter.Offers bytes start cycles final tail →
      ∃ fcs : List (BitVec 8), fcs.length = 4 ∧
        collect TxCrcInserter.step TxCrcInserter.sent tx (start :: (cycles ++ [final]) ++ tail) =
          wordsOf (bytes ++ fcs) ∧
        (∀ (rx : RxCrcCheck) (begin : RxCrcIn) (received : List RxCrcIn),
          RxCrcCheck.Offers (bytes ++ fcs) begin received →
          (run RxCrcCheck.step rx (begin :: received)).crcMatch = true ∧
          (run RxCrcCheck.step rx (begin :: received)).crcCur =
            RxCrcCheck.residue (bytes ++ fcs).length) ∧
        ∀ (rx : RxCrcCheck) (begin : RxCrcIn) (received : List RxCrcIn) (bytes' : List (BitVec 8)),
          Corrupted (bytes ++ fcs) bytes' → RxCrcCheck.Offers bytes' begin received →
          (run RxCrcCheck.step rx (begin :: received)).crcMatch = false := by
  refine ⟨crc32_word, fun bytes tx start final cycles tail nonempty idle offers => ?_⟩
  have four : (crcBytes (TxCrcInserter.crcOf bytes)).length = 4 := rfl
  have intact : (bytes ++ crcBytes (TxCrcInserter.crcOf bytes)).foldl fUpdateCrc32D8 cCrc32InitValue =
      cCrc32ResidueFull := by
    rw [List.foldl_append]
    exact crc32_residue _
  refine ⟨crcBytes (TxCrcInserter.crcOf bytes), four, TxCrcInserter.frame_sent idle offers, ?_, ?_⟩
  · intro rx begin received offers'
    obtain ⟨matches_iff, residue_iff⟩ := RxCrcCheck.match_iff (s := rx) (by simp [nonempty]) offers'
    have residue := residue_iff.2 intact
    exact ⟨matches_iff.2 residue, residue⟩
  · intro rx begin received bytes' changed offers'
    have long : 4 ≤ (bytes ++ crcBytes (TxCrcInserter.crcOf bytes)).length := by
      rw [List.length_append, four]
      omega
    have nonempty' : bytes' ≠ [] := by
      intro empty
      have length := changed.length
      rw [empty] at length
      simp only [List.length_nil] at length
      omega
    obtain ⟨matches_iff, residue_iff⟩ := RxCrcCheck.match_iff (s := rx) nonempty' offers'
    by_contra passed
    have same := residue_iff.1 (matches_iff.1 (by simpa using passed))
    exact changed.caught long _ (same.trans intact.symm)

/-- Three bytes on their way; in the wait the sink pauses twice. -/
def oddStart : TxCrcIn := { fab := { sof := true }, srcDreq := true }

def oddWord : TxCrcIn := { fab := { dvalid := true, data := 0x1234 }, srcDreq := true }

def oddFinal : TxCrcIn :=
  { fab := { dvalid := true, bytesel := true, eof := true, data := 0x5600 }, srcDreq := true }

def oddTail : List TxCrcIn := [false, true, false, true, true].map fun dreq => { fab := {}, srcDreq := dreq }

theorem oddFrame_offers :
    TxCrcInserter.Offers [0x12, 0x34, 0x56] oddStart [oddWord] oddFinal oddTail where
  rstN := rfl
  sof := rfl
  error := rfl
  dvalid := rfl
  body := by
    intro i member
    simp only [List.cons_append, List.nil_append, List.mem_cons, List.not_mem_nil, or_false] at member
    rcases member with rfl | rfl <;> exact ⟨rfl, rfl, rfl, fun _ => rfl, by decide⟩
  inside := by decide
  ends := rfl
  words := by decide
  quiet := by
    intro i member
    obtain ⟨dreq, -, rfl⟩ := List.mem_map.1 member
    exact ⟨rfl, rfl, rfl, rfl⟩
  drained := by decide

def idleInserter : TxCrcInserter :=
  { state := .idle, oddLength := true, storedMsb := 7, srcDreqD0 := false, crcPValue := 3, crcNValue := 5 }

def oddSent : List (BitVec 16 × Bool) :=
  collect TxCrcInserter.step TxCrcInserter.sent idleInserter (oddStart :: ([oddWord] ++ [oddFinal]) ++ oddTail)

def asReceived (words : List (BitVec 16 × Bool)) : List RxCrcIn :=
  words.map fun w => { fab := { dvalid := true, data := w.1, bytesel := w.2 } }

theorem crc_protects_three_bytes :
    (run RxCrcCheck.step { crcCur := 1, crcLastIsOdd := false }
      ({ fab := { sof := true } } :: asReceived oddSent)).crcMatch = true ∧
    (run RxCrcCheck.step { crcCur := 1, crcLastIsOdd := false }
      ({ fab := { sof := true } } :: asReceived ((0x1334, false) :: oddSent.tail))).crcMatch = false := by
  obtain ⟨fcs, -, sent, intact, corrupted⟩ := crc_protects_frames.2 [0x12, 0x34, 0x56] idleInserter oddStart
    oddFinal [oddWord] oddTail (by decide) rfl oddFrame_offers
  have out : oddSent = wordsOf ([0x12, 0x34, 0x56] ++ fcs) := sent
  have rest : oddSent.tail = wordsOf ([0x56] ++ fcs) := by
    rw [out]
    rfl
  have inside : ∀ words, ∀ i ∈ asReceived words, RxCrcCheck.Inside i := by
    intro words i member
    obtain ⟨w, -, rfl⟩ := List.mem_map.1 member
    exact ⟨rfl, rfl⟩
  have words : ((asReceived oddSent).flatMap (·.fab.dataWord)).map trimWord = oddSent := by decide +kernel
  have words' : ((asReceived ((0x1334, false) :: oddSent.tail)).flatMap (·.fab.dataWord)).map trimWord =
      (0x1334, false) :: oddSent.tail := by decide +kernel
  constructor
  · exact (intact _ _ _ ⟨rfl, inside _, words.trans out⟩).1
  · refine corrupted _ _ _ ([0x13, 0x34, 0x56] ++ fcs) ⟨rfl, by simp, 0, ?_⟩ ⟨rfl, inside _, ?_⟩
    · rintro j (under | past)
      · omega
      · obtain ⟨k, rfl⟩ := Nat.exists_eq_add_of_le past
        simp [show 0 + 4 + k = k + 1 + 1 + 1 + 1 by omega]
    · rw [words', rest]
      rfl

end WrCores.Endpoint
