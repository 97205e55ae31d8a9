import Mathlib.Tactic.IntervalCases
import WrCores.Endpoint.TxPcs8

/-!
What ep_tx_pcs_8bit puts on the line for frames that end well: the characters of a frame
and, in front of every frame, pairs of a comma and a second character, two pairs at least
and eight more behind another frame. All of these have an even number of characters.
-/

namespace WrCores.Endpoint

open Clocked

namespace Code8

def comma : Code8 := ⟨cK28_5, true⟩
def char (data : BitVec 8) : Code8 := ⟨data, false⟩
def spd : Code8 := ⟨cK27_7, true⟩
def epd : Code8 := ⟨cK29_7, true⟩
def extend : Code8 := ⟨cK23_7, true⟩

def high (data : BitVec 16) : Code8 := char (data.extractLsb' 8 8)
def low (data : BitVec 16) : Code8 := char (data.extractLsb' 0 8)

end Code8

namespace PcsFrame

def wordCodes8 (data : BitVec 16) : List Code8 := [.high data, .low data]

/-- The end of a good frame. An odd one has a second extension. -/
def lastCodes8 (data : BitVec 16) (bytesel : Bool) : List Code8 :=
  if bytesel then [.high data, .epd, .extend, .extend] else [.high data, .low data, .epd, .extend]

def preamble8 : List Code8 := .spd :: (List.replicate 6 (.char cPreambleChar) ++ [.char cPreambleSfd])

def codes8 (words : List (BitVec 16)) (data : BitVec 16) (bytesel : Bool) : List Code8 :=
  preamble8 ++ (words.flatMap wordCodes8 ++ lastCodes8 data bytesel)

end PcsFrame

namespace TxPcs8

open TxFsm8 (commaStep idleStep spdStep preambleStep sfdStep dataStep epdStep extendStep)

/-- The FIFO shows no entry it does not have, and has one whenever it is read and
throughout a frame. -/
structure Fed (s : TxPcs8) (i : TxPcsIn) : Prop where
  plain : i.Plain
  honest : i.fifoEmpty = false → s.fifo.entries ≠ []
  stocked : s.fsm.fifoRd = true → i.fifoEmpty = false
  inside : s.fsm.txState = .data → s.fifoFab.eof = false → s.fifoFab.error = false →
    i.fifoEmpty = false

instance (s : TxPcs8) (i : TxPcsIn) : Decidable (Fed s i) :=
  decidable_of_iff (i.Plain ∧ (i.fifoEmpty = false → s.fifo.entries ≠ []) ∧
    (s.fsm.fifoRd = true → i.fifoEmpty = false) ∧
    (s.fsm.txState = .data → s.fifoFab.eof = false → s.fifoFab.error = false → i.fifoEmpty = false))
    ⟨fun ⟨plain, honest, stocked, inside⟩ => ⟨plain, honest, stocked, inside⟩,
      fun ⟨plain, honest, stocked, inside⟩ => ⟨plain, honest, stocked, inside⟩⟩

/-- In `state`, about to read or not. -/
structure At (state : TxPcs8State) (rd : Bool) (entries : List (BitVec 18)) (s : TxPcs8) : Prop where
  state : s.fsm.txState = state
  rd : s.fsm.fifoRd = rd
  fifo : s.fifo.entries = entries

/-- Between frames, `g` pairs to go before the FIFO is looked at. -/
structure Rests (g : Nat) (entries : List (BitVec 18)) (s : TxPcs8) : Prop
    extends At .comma false entries s where
  cntr : s.fsm.txCntr = BitVec.ofNat 4 g
  few : g ≤ 8

/-- In a frame, at the first or the second character of the entry `e`. -/
structure Sends (first rd : Bool) (e : BitVec 18) (entries : List (BitVec 18)) (s : TxPcs8) : Prop
    extends At .data rd entries s where
  out : s.fifo.packedOut = e
  toggle : s.fsm.txRdreqToggle = first
  k : s.fsm.out.k = false

section Edge

variable {s : TxPcs8} {i : TxPcsIn} {g : Nat} {e e' : BitVec 18} {rest : List (BitVec 18)}
  {state : TxPcs8State}

theorem clearN_of_plain (plain : i.Plain) : fifoClearN i = true := by
  simp [fifoClearN, plain.rstN, plain.mcrPdown]

@[simp] theorem advance_fsm : (s.advance i).fsm = s.fsmStep i := rfl

theorem advance_unread (plain : i.Plain) (rd : s.fsm.fifoRd = false) :
    (s.advance i).fifo = s.fifo := by
  simp [advance, reads, rd, clearN_of_plain plain, TxFifo.read]

theorem advance_read (fed : Fed s i) (rd : s.fsm.fifoRd = true) (front : s.fifo.entries = e :: rest) :
    (s.advance i).fifo = ⟨e, rest⟩ := by
  simp [advance, reads, rd, fed.stocked rd, front, clearN_of_plain fed.plain, TxFifo.read]

theorem fsmStep_plain (plain : i.Plain) : s.fsmStep i =
    match s.fsm.txState with
    | .comma => s.fsm.commaStep
    | .idle => s.fsm.idleStep s.fifoFab i
    | .cal => s.fsm.calStep i
    | .cr1 => s.fsm.cr1Step
    | .cr2 => s.fsm.cr2Step
    | .cr3 => s.fsm.cr3Step i
    | .cr4 => s.fsm.cr4Step i
    | .spd => s.fsm.spdStep
    | .preamble => s.fsm.preambleStep
    | .sfd => s.fsm.sfdStep
    | .data => s.fsm.dataStep s.fifoFab i
    | .epd => s.fsm.epdStep
    | .extend => s.fsm.extendStep
    | .genError => { s.fsm with txState := .epd }
    | .gotoComma => s.fsm := by
  rw [fsmStep, TxFsm8.step, plain.running]
  rfl

/-- The comma of a pair, at which nothing is read. -/
theorem comma_edge (fed : Fed s i) (at_ : At .comma false rest s) :
    (s.advance i).fsm.out = .comma ∧ At .idle false rest (s.advance i) ∧
      (s.advance i).fsm.fifoReady = false ∧ (s.advance i).fsm.txCntr = s.fsm.txCntr := by
  have fifo := advance_unread fed.plain at_.rd
  have sends : s.fsmStep i = s.fsm.commaStep := by simp [fsmStep_plain fed.plain, at_.state]
  exact ⟨by simp [sends, commaStep, Code8.comma],
    ⟨by simp [sends, commaStep], by simp [sends, commaStep], by rw [fifo, at_.fifo]⟩,
    by simp [sends, commaStep, at_.rd], by simp [sends, commaStep]⟩

/-- A comma at which the sof is read. -/
theorem comma_read_edge (fed : Fed s i) (at_ : At .comma true (e :: rest) s) :
    (s.advance i).fsm.out = .comma ∧ At .idle false rest (s.advance i) ∧
      (s.advance i).fsm.fifoReady = true ∧ (s.advance i).fsm.txCntr = s.fsm.txCntr ∧
      (s.advance i).fifo.packedOut = e := by
  have fifo := advance_read fed at_.rd at_.fifo
  have sends : s.fsmStep i = s.fsm.commaStep := by simp [fsmStep_plain fed.plain, at_.state]
  exact ⟨by simp [sends, commaStep, Code8.comma],
    ⟨by simp [sends, commaStep], by simp [sends, commaStep], by rw [fifo]⟩,
    by simp [sends, commaStep, at_.rd], by simp [sends, commaStep], by rw [fifo]⟩

def IsSecond (c : Code8) : Prop := c = .char cD16_2 ∨ c = .char cD5_6

/-- The second character of a pair; `fifo_rd` rises if there is enough to send. -/
theorem idle_edge (fed : Fed s i) (at_ : At .idle false rest s) (ready : s.fsm.fifoReady = false) :
    IsSecond (s.advance i).fsm.out ∧
      At .comma (s.fsm.txCntr == 0#4 && i.enoughData) rest (s.advance i) ∧
      (s.advance i).fsm.txCntr = if s.fsm.txCntr = 0#4 then 0 else s.fsm.txCntr - 1#4 := by
  have fifo := advance_unread fed.plain at_.rd
  have sends : s.fsmStep i = { s.fsm with
      rmonTxUnderrun := false
      txError := false
      out := .char (if i.disparity && s.fsm.txCatchDisparity then cD5_6 else cD16_2)
      txCatchDisparity := false
      txCntr := if s.fsm.txCntr = 0#4 then 0 else s.fsm.txCntr - 1#4
      fifoRd := s.fsm.txCntr == 0#4 && i.enoughData
      txState := .comma } := by
    simp [fsmStep_plain fed.plain, at_.state, idleStep, fed.plain.anTxEn, fed.plain.txCal, ready,
      Code8.char]
  refine ⟨?_, ⟨by simp [sends], by simp [sends], by rw [fifo, at_.fifo]⟩, by simp [sends]⟩
  simp only [advance_fsm, sends, IsSecond]
  split_ifs <;> simp

theorem sof_edge (fed : Fed s i) (at_ : At .idle false rest s) (ready : s.fsm.fifoReady = true)
    (zero : s.fsm.txCntr = 0#4) (out : s.fifo.packedOut = PcsFrame.sofEntry) :
    IsSecond (s.advance i).fsm.out ∧ At .spd true rest (s.advance i) ∧
      (s.advance i).fsm.txCntr = 5#4 := by
  have fifo := advance_unread fed.plain at_.rd
  have fab : s.fifoFab = { sof := true, data := 0x8000 } := by rw [fifoFab, out, unpack_sof]
  have sends : s.fsmStep i = { s.fsm with
      rmonTxUnderrun := false
      txError := false
      out := .char (if i.disparity && s.fsm.txCatchDisparity then cD5_6 else cD16_2)
      txCatchDisparity := false
      fifoRd := true
      txState := .spd
      txCntr := 5 } := by
    simp [fsmStep_plain fed.plain, at_.state, idleStep, fed.plain.anTxEn, ready, zero, fab, Code8.char]
  refine ⟨?_, ⟨by simp [sends], by simp [sends], by rw [fifo, at_.fifo]⟩, by simp [sends]⟩
  simp only [advance_fsm, sends, IsSecond]
  split_ifs <;> simp

theorem spd_edge (fed : Fed s i) (at_ : At .spd true (e :: rest) s) (five : s.fsm.txCntr = 5#4) :
    (s.advance i).fsm.out = .spd ∧ At .preamble false rest (s.advance i) ∧
      (s.advance i).fifo.packedOut = e ∧ (s.advance i).fsm.txCntr = 5#4 := by
  have fifo := advance_read fed at_.rd at_.fifo
  have sends : s.fsmStep i = s.fsm.spdStep := by simp [fsmStep_plain fed.plain, at_.state]
  exact ⟨by simp [sends, spdStep, Code8.spd],
    ⟨by simp [sends, spdStep], by simp [sends, spdStep], by rw [fifo]⟩, by rw [fifo],
    by simp [sends, spdStep, five]⟩

theorem preamble_edge (fed : Fed s i) (at_ : At .preamble false rest s)
    (out : s.fifo.packedOut = e) :
    (s.advance i).fsm.out = .char cPreambleChar ∧
      At (if s.fsm.txCntr = 0#4 then .sfd else .preamble) false rest (s.advance i) ∧
      (s.advance i).fifo.packedOut = e ∧ (s.advance i).fsm.txCntr = s.fsm.txCntr - 1#4 := by
  have fifo := advance_unread fed.plain at_.rd
  have sends : s.fsmStep i = s.fsm.preambleStep := by simp [fsmStep_plain fed.plain, at_.state]
  exact ⟨by simp [sends, preambleStep, Code8.char],
    ⟨by simp [sends, preambleStep], by simp [sends, preambleStep, at_.rd], by rw [fifo, at_.fifo]⟩,
    by rw [fifo, out], by simp [sends, preambleStep]⟩

theorem sfd_edge (fed : Fed s i) (at_ : At .sfd false rest s) (out : s.fifo.packedOut = e)
    (k : s.fsm.out.k = false) :
    (s.advance i).fsm.out = .char cPreambleSfd ∧ Sends true false e rest (s.advance i) := by
  have fifo := advance_unread fed.plain at_.rd
  have sends : s.fsmStep i = s.fsm.sfdStep := by simp [fsmStep_plain fed.plain, at_.state]
  exact ⟨by simp [sends, sfdStep, Code8.char, k],
    ⟨by simp [sends, sfdStep], by simp [sends, sfdStep, at_.rd], by rw [fifo, at_.fifo]⟩,
    by rw [fifo, out], by simp [sends, sfdStep], by simp [sends, sfdStep, k]⟩

theorem high_edge (data : BitVec 16) (fed : Fed s i)
    (at_ : Sends true false (PcsFrame.wordEntry data) rest s) :
    (s.advance i).fsm.out = .high data ∧
      Sends false true (PcsFrame.wordEntry data) rest (s.advance i) := by
  have fifo := advance_unread fed.plain at_.rd
  have fab : s.fifoFab = PcsFrame.wordFabric data := by rw [fifoFab, at_.out, unpack_word]
  have some : i.fifoEmpty = false :=
    fed.inside at_.state (by simp [fab, PcsFrame.wordFabric]) (by simp [fab, PcsFrame.wordFabric])
  have sends : s.fsmStep i = { s.fsm with
      fifoRd := true, out := .high data, txRdreqToggle := false, txOddLength := false } := by
    simp [fsmStep_plain fed.plain, at_.state, dataStep, fab, PcsFrame.wordFabric, some, at_.toggle,
      Code8.high, Code8.char, at_.k]
  exact ⟨by simp [sends], ⟨by simp [sends, at_.state], by simp [sends], by rw [fifo, at_.fifo]⟩,
    by rw [fifo, at_.out], by simp [sends], by simp [sends, Code8.high, Code8.char]⟩

theorem low_edge (data : BitVec 16) (fed : Fed s i)
    (at_ : Sends false true (PcsFrame.wordEntry data) (e :: rest) s) :
    (s.advance i).fsm.out = .low data ∧ Sends true false e rest (s.advance i) := by
  have fifo := advance_read fed at_.rd at_.fifo
  have fab : s.fifoFab = PcsFrame.wordFabric data := by rw [fifoFab, at_.out, unpack_word]
  have some : i.fifoEmpty = false := fed.stocked at_.rd
  have sends : s.fsmStep i = { s.fsm with
      fifoRd := false, out := .low data, txRdreqToggle := true, txOddLength := false } := by
    simp [fsmStep_plain fed.plain, at_.state, dataStep, fab, PcsFrame.wordFabric, some, at_.toggle,
      Code8.low, Code8.char, at_.k]
  exact ⟨by simp [sends], ⟨by simp [sends, at_.state], by simp [sends], by rw [fifo]⟩,
    by rw [fifo], by simp [sends], by simp [sends, Code8.low, Code8.char]⟩

/-- The first character of the last word, which is all of it in an odd frame. -/
theorem last_high_edge (data : BitVec 16) (bytesel : Bool) (fed : Fed s i)
    (at_ : Sends true false (PcsFrame.lastEntry (some (data, bytesel))) rest s) :
    (s.advance i).fsm.out = .high data ∧
      if bytesel then At .epd false rest (s.advance i) ∧ (s.advance i).fsm.txOddLength = true
      else Sends false false (PcsFrame.lastEntry (some (data, bytesel))) rest (s.advance i) := by
  have fifo := advance_unread fed.plain at_.rd
  have fab : s.fifoFab = PcsFrame.lastFabric (some (data, bytesel)) := by
    rw [fifoFab, at_.out, unpack_last]
  have sends : s.fsmStep i = { s.fsm with
      fifoRd := false, out := .high data, txRdreqToggle := false, txOddLength := bytesel
      txState := if bytesel then .epd else .data } := by
    cases bytesel <;>
      simp [fsmStep_plain fed.plain, at_.state, dataStep, fab, PcsFrame.lastFabric, at_.toggle,
        Code8.high, Code8.char, at_.k]
  refine ⟨by simp [sends], ?_⟩
  cases bytesel with
  | false =>
      exact ⟨⟨by simp [sends], by simp [sends], by rw [fifo, at_.fifo]⟩, by rw [fifo, at_.out],
        by simp [sends], by simp [sends, Code8.high, Code8.char]⟩
  | true => exact ⟨⟨by simp [sends], by simp [sends], by rw [fifo, at_.fifo]⟩, by simp [sends]⟩

theorem last_low_edge (data : BitVec 16) (fed : Fed s i)
    (at_ : Sends false false (PcsFrame.lastEntry (some (data, false))) rest s) :
    (s.advance i).fsm.out = .low data ∧ At .epd false rest (s.advance i) ∧
      (s.advance i).fsm.txOddLength = false := by
  have fifo := advance_unread fed.plain at_.rd
  have fab : s.fifoFab = PcsFrame.lastFabric (some (data, false)) := by
    rw [fifoFab, at_.out, unpack_last]
  have sends : s.fsmStep i = { s.fsm with
      fifoRd := false, out := .low data, txRdreqToggle := true, txOddLength := false
      txState := .epd } := by
    simp [fsmStep_plain fed.plain, at_.state, dataStep, fab, PcsFrame.lastFabric, at_.toggle,
      Code8.low, Code8.char, at_.k]
  exact ⟨by simp [sends], ⟨by simp [sends], by simp [sends], by rw [fifo, at_.fifo]⟩, by simp [sends]⟩

theorem epd_edge (odd : Bool) (fed : Fed s i) (at_ : At .epd false rest s)
    (length : s.fsm.txOddLength = odd) :
    (s.advance i).fsm.out = .epd ∧ At .extend false rest (s.advance i) ∧
      (s.advance i).fsm.txOddLength = odd ∧ (s.advance i).fsm.out.k = true := by
  have fifo := advance_unread fed.plain at_.rd
  have sends : s.fsmStep i = s.fsm.epdStep := by simp [fsmStep_plain fed.plain, at_.state]
  exact ⟨by simp [sends, epdStep, Code8.epd],
    ⟨by simp [sends, epdStep], by simp [sends, epdStep, at_.rd], by rw [fifo, at_.fifo]⟩,
    by simp [sends, epdStep, length], by simp [sends, epdStep]⟩

theorem extend_more_edge (fed : Fed s i) (at_ : At .extend false rest s)
    (odd : s.fsm.txOddLength = true) (k : s.fsm.out.k = true) :
    (s.advance i).fsm.out = .extend ∧ At .extend false rest (s.advance i) ∧
      (s.advance i).fsm.txOddLength = false ∧ (s.advance i).fsm.out.k = true := by
  have fifo := advance_unread fed.plain at_.rd
  have sends : s.fsmStep i = s.fsm.extendStep := by simp [fsmStep_plain fed.plain, at_.state]
  exact ⟨by simp [sends, extendStep, odd, Code8.extend, k],
    ⟨by simp [sends, extendStep, odd, at_.state], by simp [sends, extendStep, odd, at_.rd],
      by rw [fifo, at_.fifo]⟩,
    by simp [sends, extendStep, odd], by simp [sends, extendStep, odd, k]⟩

theorem extend_edge (fed : Fed s i) (at_ : At .extend false rest s)
    (even : s.fsm.txOddLength = false) (k : s.fsm.out.k = true) :
    (s.advance i).fsm.out = .extend ∧ Rests 8 rest (s.advance i) := by
  have fifo := advance_unread fed.plain at_.rd
  have sends : s.fsmStep i = s.fsm.extendStep := by simp [fsmStep_plain fed.plain, at_.state]
  exact ⟨by simp [sends, extendStep, even, Code8.extend, k],
    ⟨by simp [sends, extendStep, even], by simp [sends, extendStep, even, at_.rd],
      by rw [fifo, at_.fifo]⟩, by simp [sends, extendStep, even], by decide⟩

end Edge

/-! ### Frames -/

/-- The character an edge puts on the line. -/
def sends (s : TxPcs8) (i : TxPcsIn) : Code8 := (s.advance i).fsm.out

variable {rest : List (BitVec 18)} {e : BitVec 18}

theorem preamble_shown (n : Nat) (few : n ≤ 5) :
    Shows advance Fed sends
      (fun s => At .preamble false rest s ∧ s.fifo.packedOut = e ∧ s.fsm.txCntr = BitVec.ofNat 4 n)
      (List.replicate (n + 1) (.char cPreambleChar))
      (fun s => At .sfd false rest s ∧ s.fifo.packedOut = e ∧ s.fsm.out.k = false) := by
  induction n with
  | zero =>
      refine .cons (fun s i start fed => ?_) .nil
      obtain ⟨at_, out, zero⟩ := start
      obtain ⟨code, next, out, -⟩ := preamble_edge fed at_ out
      rw [if_pos zero] at next
      exact ⟨code, next, out, by rw [code]; rfl⟩
  | succ n ih =>
      refine .cons (fun s i start fed => ?_) (ih (by omega))
      obtain ⟨at_, out, cntr⟩ := start
      have few : n ≤ 4 := Nat.le_of_succ_le_succ few
      have positive : s.fsm.txCntr ≠ 0#4 := by
        rw [cntr]
        interval_cases n <;> decide
      have fewer : s.fsm.txCntr - 1#4 = BitVec.ofNat 4 n := by
        rw [cntr]
        interval_cases n <;> decide
      obtain ⟨code, next, out, counted⟩ := preamble_edge fed at_ out
      rw [if_neg positive] at next
      exact ⟨code, next, out, counted.trans fewer⟩

theorem words_shown (words : List (BitVec 16)) (e : BitVec 18) (tail : List (BitVec 18)) :
    Shows advance Fed sends
      (fun s => ∃ first more, words.map PcsFrame.wordEntry ++ e :: tail = first :: more ∧
        Sends true false first more s)
      (words.flatMap PcsFrame.wordCodes8) (Sends true false e tail) := by
  induction words with
  | nil =>
      intro s inputs length along start
      obtain ⟨first, more, whole, at_⟩ := start
      obtain rfl := List.eq_nil_of_length_eq_zero length
      obtain ⟨rfl, rfl⟩ : e = first ∧ tail = more := by simpa using whole
      exact ⟨rfl, at_⟩
  | cons data words ih =>
      obtain ⟨next, more', split⟩ := List.exists_cons_of_ne_nil
        (show words.map PcsFrame.wordEntry ++ e :: tail ≠ [] by simp)
      refine Shows.cons (M := Sends false true (PcsFrame.wordEntry data) (next :: more'))
        (fun s i start fed => ?_) (Shows.cons (fun s i at_ fed => ?_) ih)
      · obtain ⟨first, more, whole, at_⟩ := start
        obtain ⟨rfl, rfl⟩ : PcsFrame.wordEntry data = first ∧ next :: more' = more := by
          simpa [split] using whole
        exact high_edge data fed at_
      · obtain ⟨code, at_⟩ := low_edge data fed at_
        exact ⟨code, next, more', split, at_⟩

/-- At an extension, with another one to follow or not. -/
def Extends (odd : Bool) (rest : List (BitVec 18)) (s : TxPcs8) : Prop :=
  At .extend false rest s ∧ s.fsm.txOddLength = odd ∧ s.fsm.out.k = true

theorem last_shown (data : BitVec 16) (bytesel : Bool) :
    Shows advance Fed sends (Sends true false (PcsFrame.lastEntry (some (data, bytesel))) rest)
      (PcsFrame.lastCodes8 data bytesel) (Rests 8 rest) := by
  have ends : Shows advance Fed sends (Extends false rest) [.extend] (Rests 8 rest) :=
    .cons (fun s i start fed => extend_edge fed start.1 start.2.1 start.2.2) .nil
  cases bytesel with
  | false =>
      refine .cons (M := Sends false false (PcsFrame.lastEntry (some (data, false))) rest)
        (fun s i at_ fed => last_high_edge data false fed at_) ?_
      refine .cons (M := fun s => At .epd false rest s ∧ s.fsm.txOddLength = false)
        (fun s i at_ fed => last_low_edge data fed at_) ?_
      exact .cons (M := Extends false rest)
        (fun s i start fed => epd_edge false fed start.1 start.2) ends
  | true =>
      refine .cons (M := fun s => At .epd false rest s ∧ s.fsm.txOddLength = true)
        (fun s i at_ fed => last_high_edge data true fed at_) ?_
      refine .cons (M := Extends true rest)
        (fun s i start fed => epd_edge true fed start.1 start.2) ?_
      exact .cons (M := Extends false rest)
        (fun s i start fed => extend_more_edge fed start.1 start.2.1 start.2.2) ends

theorem frame_shown (f : PcsFrame) (rest : List (BitVec 18)) (data : BitVec 16) (bytesel : Bool)
    (good : f.last = some (data, bytesel)) :
    Shows advance Fed sends (fun s => At .spd true (f.body ++ rest) s ∧ s.fsm.txCntr = 5#4)
      (PcsFrame.codes8 f.words data bytesel) (Rests 8 rest) := by
  have whole : f.body ++ rest =
      f.words.map PcsFrame.wordEntry ++ PcsFrame.lastEntry (some (data, bytesel)) :: rest := by
    simp [PcsFrame.body, good]
  obtain ⟨first, more, split⟩ := List.exists_cons_of_ne_nil
    (show f.words.map PcsFrame.wordEntry ++ PcsFrame.lastEntry (some (data, bytesel)) :: rest ≠ [] by simp)
  rw [PcsFrame.codes8, PcsFrame.preamble8, whole, split, List.cons_append, List.append_assoc,
    List.singleton_append]
  refine .cons (M := fun s => At .preamble false more s ∧ s.fifo.packedOut = first ∧ s.fsm.txCntr = 5#4)
    (fun s i start fed => spd_edge fed start.1 start.2) ?_
  refine .append (preamble_shown 5 (by decide)) ?_
  refine .cons (M := Sends true false first more)
    (fun s i start fed => sfd_edge fed start.1 start.2.1 start.2.2) ?_
  refine .append (fun s inputs length along start => ?_) (last_shown data bytesel)
  exact words_shown f.words _ rest s inputs length along ⟨first, more, split, start⟩

/-! ### The line -/

/-- Between frames, at a comma, with no read under way. -/
def Between (s : TxPcs8) : Prop := s.fsm.txState = .comma ∧ s.fsm.fifoRd = false

instance (s : TxPcs8) : Decidable (Between s) := inferInstanceAs (Decidable (_ ∧ _))

/-- The environment of a run: the FIFO as above, and if it has entries for another frame,
its flags will once show enough of them. The transmitter looks at them every other cycle. -/
structure Served (s : TxPcs8) (inputs : Nat → TxPcsIn) : Prop where
  fed : Throughout advance Fed s inputs
  refilled : ∀ t, (run advance s (upTo inputs t)).Between →
    (run advance s (upTo inputs t)).fifo.entries ≠ [] →
      ∃ u, (inputs (t + u)).enoughData = true ∧ (inputs (t + u + 1)).enoughData = true

variable {g : Nat} {entries : List (BitVec 18)} {s : TxPcs8} {inputs : Nat → TxPcsIn}

theorem Served.after (served : Served s inputs) (n : Nat) :
    Served (run advance s (upTo inputs n)) (Clocked.after inputs n) := by
  refine ⟨served.fed.after n, fun t between some => ?_⟩
  rw [← run_append, ← upTo_add] at between some
  obtain ⟨u, enough⟩ := served.refilled (n + t) between some
  exact ⟨u, by simpa only [Clocked.after, ← Nat.add_assoc] using enough⟩

def pair (second : Code8) : List Code8 := [.comma, second]

/-- A number of idle pairs. -/
def IdlePairs (least : Nat) (codes : List Code8) : Prop :=
  ∃ seconds : List Code8, least ≤ seconds.length ∧ (∀ c ∈ seconds, IsSecond c) ∧
    codes = seconds.flatMap pair

theorem idlePairs_nil : IdlePairs 0 [] := ⟨[], by simp⟩

theorem idlePairs_one {c c' : Code8} (comma : c = .comma) (second : IsSecond c') :
    IdlePairs 1 [c, c'] :=
  ⟨[c'], by simp, by simpa using second, by simp [pair, comma]⟩

theorem idlePairs_append {m n : Nat} {codes more : List Code8} (first : IdlePairs m codes)
    (second : IdlePairs n more) : IdlePairs (m + n) (codes ++ more) := by
  obtain ⟨seconds, long, idle, rfl⟩ := first
  obtain ⟨seconds', long', idle', rfl⟩ := second
  refine ⟨seconds ++ seconds', ?_, fun c member => ?_, by simp⟩
  · rw [List.length_append]
    exact Nat.add_le_add long long'
  · rcases List.mem_append.1 member with here | there
    · exact idle c here
    · exact idle' c there

/-- One pair, and what becomes of the counter and the FIFO's read signal. -/
theorem pair_run (served : Served s inputs) (at_ : At .comma false entries s) :
    IdlePairs 1 (collect advance (fun s i => [s.sends i]) s (upTo inputs 2)) ∧
      At .comma (s.fsm.txCntr == 0#4 && (inputs 1).enoughData) entries
        (run advance s (upTo inputs 2)) ∧
      (run advance s (upTo inputs 2)).fsm.txCntr =
        if s.fsm.txCntr = 0#4 then 0 else s.fsm.txCntr - 1#4 := by
  obtain ⟨comma, at₁, ready, cntr⟩ := comma_edge served.fed.now at_
  obtain ⟨second, at₂, cntr'⟩ := idle_edge (s := s.advance (inputs 0)) (served.fed.at_edge 1) at₁ ready
  rw [cntr] at at₂ cntr'
  exact ⟨idlePairs_one comma second, at₂, cntr'⟩

theorem Rests.count (served : Served s inputs) (rests : Rests (g + 1) entries s) :
    Rests g entries (run advance s (upTo inputs 2)) := by
  obtain ⟨-, at_, cntr⟩ := pair_run served rests.toAt
  have few : g ≤ 7 := Nat.le_of_succ_le_succ rests.few
  have positive : s.fsm.txCntr ≠ 0#4 := by
    rw [rests.cntr]
    interval_cases g <;> decide
  have fewer : s.fsm.txCntr - 1#4 = BitVec.ofNat 4 g := by
    rw [rests.cntr]
    interval_cases g <;> decide
  rw [beq_false_of_ne positive, Bool.false_and] at at_
  rw [if_neg positive, fewer] at cntr
  exact ⟨at_, cntr, by omega⟩

theorem Rests.wait (served : Served s inputs) (rests : Rests 0 entries s)
    (few : (inputs 1).enoughData = false) : Rests 0 entries (run advance s (upTo inputs 2)) := by
  obtain ⟨-, at_, cntr⟩ := pair_run served rests.toAt
  have zero : s.fsm.txCntr = 0#4 := rests.cntr
  rw [few, Bool.and_false] at at_
  rw [if_pos zero] at cntr
  exact ⟨at_, cntr, by omega⟩

theorem Rests.ask (served : Served s inputs) (rests : Rests 0 entries s)
    (enough : (inputs 1).enoughData = true) :
    At .comma true entries (run advance s (upTo inputs 2)) ∧
      (run advance s (upTo inputs 2)).fsm.txCntr = 0#4 := by
  obtain ⟨-, at_, cntr⟩ := pair_run served rests.toAt
  have zero : s.fsm.txCntr = 0#4 := rests.cntr
  rw [enough, zero] at at_
  rw [if_pos zero] at cntr
  exact ⟨at_, cntr⟩

theorem count_reaches (served : Served s inputs) (rests : Rests g entries s) :
    Reaches advance sends (IdlePairs g) (Rests 0 entries) s inputs := by
  induction g generalizing s inputs with
  | zero => exact .here idlePairs_nil rests
  | succ g ih =>
      have first : Reaches advance sends (IdlePairs 1) (Rests g entries) s inputs :=
        ⟨2, (pair_run served rests.toAt).1, Rests.count served rests⟩
      refine .trans first (fun n there => ih (served.after n) there) ?_
      intro codes more first second
      rw [Nat.add_comm]
      exact idlePairs_append first second

/-- The flags are looked at in every second cycle: if they show enough data in two cycles,
one of these is among them. -/
theorem wait_reaches (served : Served s inputs) (rests : Rests 0 entries s) {u : Nat}
    (enough : (inputs u).enoughData = true) (still : (inputs (u + 1)).enoughData = true) :
    Reaches advance sends (IdlePairs 1) (fun s => At .comma true entries s ∧ s.fsm.txCntr = 0#4)
      s inputs := by
  induction u using Nat.twoStepInduction generalizing s inputs with
  | zero => exact ⟨2, (pair_run served rests.toAt).1, Rests.ask served rests still⟩
  | one => exact ⟨2, (pair_run served rests.toAt).1, Rests.ask served rests enough⟩
  | more u ih _ =>
      have pair := (pair_run served rests.toAt).1
      cases now : (inputs 1).enoughData with
      | true => exact ⟨2, pair, Rests.ask served rests now⟩
      | false =>
          obtain ⟨n, codes, there⟩ := ih (served.after 2) (Rests.wait served rests now)
            (by rwa [Clocked.after, Nat.add_comm]) (by rwa [Clocked.after, Nat.add_comm 2, Nat.add_right_comm])
          refine ⟨2 + n, ?_, by rwa [upTo_add, run_append]⟩
          rw [upTo_add, collect_append]
          obtain ⟨seconds, long, idle⟩ := idlePairs_append pair codes
          exact ⟨seconds, Nat.le_of_succ_le long, idle⟩

/-- From rest to the start of the next frame. -/
theorem start_reaches (served : Served s inputs)
    (rests : Rests g (PcsFrame.sofEntry :: entries) s) :
    Reaches advance sends (IdlePairs (g + 2))
      (fun s => At .spd true entries s ∧ s.fsm.txCntr = 5#4) s inputs := by
  refine .trans (B := IdlePairs 2) (count_reaches served rests) (fun n there => ?_)
    fun _ _ => idlePairs_append
  have served := served.after n
  have some : (run advance s (upTo inputs n)).fifo.entries ≠ [] := by simp [there.fifo]
  obtain ⟨u, enough, still⟩ := served.refilled 0 ⟨there.state, there.rd⟩ some
  rw [Nat.zero_add] at enough still
  generalize run advance s (upTo inputs n) = s at there served
  refine .trans (B := IdlePairs 1) (wait_reaches served there enough still) (fun n there => ?_)
    fun _ _ => idlePairs_append
  have served := served.after n
  generalize run advance s (upTo inputs n) = s at there served
  obtain ⟨comma, at₁, ready, cntr, out⟩ := comma_read_edge served.fed.now there.1
  obtain ⟨second, at₂, cntr'⟩ := sof_edge (served.fed.at_edge 1) at₁ ready (cntr.trans there.2) out
  exact ⟨2, idlePairs_one comma second, at₂, cntr'⟩

/-- Frames on the line, `g` idle pairs owed before the first. -/
inductive Line : Nat → List PcsFrame → List Code8 → Prop where
  | done {g : Nat} : Line g [] []
  | frame {g : Nat} {f : PcsFrame} {fs : List PcsFrame} {data : BitVec 16} {bytesel : Bool}
      {idles codes : List Code8} : f.last = some (data, bytesel) → IdlePairs (g + 2) idles →
      Line 8 fs codes → Line g (f :: fs) (idles ++ PcsFrame.codes8 f.words data bytesel ++ codes)

theorem line_reaches (frames : List PcsFrame) (good : ∀ f ∈ frames, f.last ≠ none)
    (served : Served s inputs) (rests : Rests g (frames.flatMap PcsFrame.entries) s) :
    Reaches advance sends (Line g frames) (fun s => ∃ g, Rests g [] s) s inputs := by
  induction frames generalizing g s inputs with
  | nil => exact .here .done ⟨g, rests⟩
  | cons f fs ih =>
      obtain ⟨⟨data, bytesel⟩, last⟩ := Option.ne_none_iff_exists'.1 (good f (by simp))
      refine .trans (start_reaches served rests)
        (B := fun codes => ∃ rest, codes = PcsFrame.codes8 f.words data bytesel ++ rest ∧ Line 8 fs rest)
        (fun n there => ?_) ?_
      · have served := served.after n
        have whole := frame_shown f (fs.flatMap PcsFrame.entries) data bytesel last
        refine .trans (whole.reaches there served.fed)
          (fun n there => ih (fun f member => good f (by simp [member])) (served.after n) there) ?_
        rintro codes rest rfl line
        exact ⟨rest, rfl, line⟩
      · rintro idles codes idle ⟨rest, rfl, line⟩
        rw [← List.append_assoc]
        exact .frame last idle line

/-- With nothing left to send only pairs follow. -/
theorem rest_pairs (served : Served s inputs) (rests : ∃ g, Rests g [] s) (r : Nat) :
    IdlePairs r (collect advance (fun s i => [s.sends i]) s (upTo inputs (2 * r))) ∧
      ∃ g, Rests g [] (run advance s (upTo inputs (2 * r))) := by
  induction r generalizing s inputs with
  | zero => exact ⟨idlePairs_nil, rests⟩
  | succ r ih =>
      obtain ⟨g, rests⟩ := rests
      have step : ∃ g, Rests g [] (run advance s (upTo inputs 2)) := by
        cases g with
        | zero =>
            have empty : (inputs 1).enoughData = false := by
              by_contra enough
              simp only [TxPcsIn.enoughData, Bool.not_eq_false, Bool.and_eq_true, Bool.not_eq_true'] at enough
              have fed := served.fed.at_edge 1
              obtain ⟨-, at_, -⟩ := comma_edge served.fed.now rests.toAt
              exact fed.honest enough.1 at_.fifo
            exact ⟨0, Rests.wait served rests empty⟩
        | succ g => exact ⟨g, Rests.count served rests⟩
      obtain ⟨pairs, there⟩ := ih (served.after 2) step
      rw [Nat.add_comm r, Nat.mul_add, upTo_add, collect_append, run_append]
      exact ⟨idlePairs_append (pair_run served rests.toAt).1 pairs, there⟩

/-- Idle pairs, the last of which may have only its comma. -/
def Idles (least : Nat) (codes : List Code8) : Prop :=
  ∃ pairs half, IdlePairs least pairs ∧ (half = [] ∨ half = [.comma]) ∧ codes = pairs ++ half

theorem rest_idle (served : Served s inputs) (rests : ∃ g, Rests g [] s) (n : Nat) :
    Idles (n / 2) (collect advance (fun s i => [s.sends i]) s (upTo inputs n)) := by
  obtain ⟨pairs, g, there⟩ := rest_pairs served rests (n / 2)
  rcases Nat.even_or_odd' n with ⟨r, rfl | rfl⟩
  · rw [Nat.mul_div_cancel_left r Nat.two_pos] at pairs ⊢
    exact ⟨_, [], pairs, .inl rfl, (List.append_nil _).symm⟩
  · have half : (2 * r + 1) / 2 = r := by omega
    rw [half] at pairs there ⊢
    obtain ⟨comma, -⟩ := comma_edge (served.fed.at_edge (2 * r)) there.toAt
    refine ⟨_, [.comma], pairs, .inr rfl, ?_⟩
    rw [upTo_snoc, collect_append, ← comma]
    rfl

end TxPcs8

/-! ### Positions -/

/-- The characters with the parities of their positions. -/
def marked (even : Bool) : List Code8 → List (Code8 × Bool)
  | [] => []
  | c :: rest => (c, even) :: marked (!even) rest

theorem marked_split (even : Bool) (codes more : List Code8) :
    ∃ even', marked even (codes ++ more) = marked even codes ++ marked even' more := by
  induction codes generalizing even with
  | nil => exact ⟨even, rfl⟩
  | cons c rest ih =>
      obtain ⟨even', split⟩ := ih (!even)
      exact ⟨even', by simp [marked, split]⟩

theorem marked_append (even : Bool) (codes more : List Code8) (whole : Even codes.length) :
    marked even (codes ++ more) = marked even codes ++ marked even more := by
  induction codes using List.twoStepInduction generalizing even with
  | nil => rfl
  | singleton c => simp at whole
  | cons_cons c c' rest ih _ =>
      have rest_whole : Even rest.length := by simpa [Nat.even_add_one] using whole
      simp [marked, ih _ rest_whole]

/-- Whole pairs of characters, with a comma in the first place only. -/
def Aligned (codes : List Code8) : Prop :=
  Even codes.length ∧ ∀ p ∈ marked true codes, p.1 = .comma → p.2 = true

instance (codes : List Code8) : Decidable (Aligned codes) := inferInstanceAs (Decidable (_ ∧ _))

theorem aligned_append {codes more : List Code8} (first : Aligned codes) (second : Aligned more) :
    Aligned (codes ++ more) := by
  refine ⟨by simpa using first.1.add second.1, fun p member => ?_⟩
  rw [marked_append _ _ _ first.1, List.mem_append] at member
  rcases member with here | there
  · exact first.2 p here
  · exact second.2 p there

theorem aligned_flatMap {Item : Type*} (items : List Item) (codes : Item → List Code8)
    (each : ∀ x ∈ items, Aligned (codes x)) : Aligned (items.flatMap codes) := by
  induction items with
  | nil => exact ⟨Even.zero, by simp [marked]⟩
  | cons x rest ih =>
      rw [List.flatMap_cons]
      exact aligned_append (each x (by simp)) (ih fun x member => each x (by simp [member]))

theorem aligned_two {c c' : Code8} (second : c' ≠ .comma) : Aligned [c, c'] := by
  simp [Aligned, marked, second]

theorem char_ne_comma (data : BitVec 8) : Code8.char data ≠ .comma := by
  simp [Code8.char, Code8.comma]

theorem aligned_codes8 (words : List (BitVec 16)) (data : BitVec 16) (bytesel : Bool) :
    Aligned (PcsFrame.codes8 words data bytesel) := by
  refine aligned_append (by decide) (aligned_append ?_ ?_)
  · exact aligned_flatMap words _ fun data _ => aligned_two (char_ne_comma _)
  · cases bytesel with
    | false =>
        have first : Aligned [.high data, .low data] := aligned_two (char_ne_comma _)
        exact aligned_append first (by decide)
    | true =>
        have first : Aligned [.high data, .epd] := aligned_two (by decide)
        exact aligned_append first (by decide)

namespace TxPcs8

theorem IdlePairs.aligned {least : Nat} {codes : List Code8} (idle : IdlePairs least codes) :
    Aligned codes := by
  obtain ⟨seconds, -, each, rfl⟩ := idle
  refine aligned_flatMap seconds pair fun c member => aligned_two ?_
  rcases each c member with rfl | rfl <;> exact char_ne_comma _

theorem Idles.commas {least : Nat} {codes : List Code8} (idle : Idles least codes) :
    ∀ p ∈ marked true codes, p.1 = .comma → p.2 = true := by
  obtain ⟨pairs, half, pairs_idle, rest, rfl⟩ := idle
  intro p member
  rw [marked_append _ _ _ pairs_idle.aligned.1, List.mem_append] at member
  rcases member with here | there
  · exact pairs_idle.aligned.2 p here
  · rcases rest with rfl | rfl
    · simp [marked] at there
    · simp only [marked, List.mem_singleton] at there
      simp [there]

theorem Line.aligned {g : Nat} {frames : List PcsFrame} {codes : List Code8}
    (line : Line g frames codes) : Aligned codes := by
  induction line with
  | done => decide
  | frame _ idle _ ih => exact aligned_append (aligned_append idle.aligned (aligned_codes8 _ _ _)) ih

end TxPcs8

end WrCores.Endpoint
