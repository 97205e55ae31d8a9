import Mathlib.Tactic.IntervalCases
import WrCores.Endpoint.TxPcs16

/-!
What ep_tx_pcs_16bit puts on the line: the code words of a frame and, in front of every
frame, idle codes, three of them at least and one or two more behind another frame.
-/

namespace WrCores.Endpoint

open Clocked

namespace Code16

def idle (low : BitVec 8) : Code16 := ⟨cK28_5 ++ low, 0b10⟩

def IsIdle (c : Code16) : Prop := c = idle cD16_2 ∨ c = idle cD5_6

def spd : Code16 := ⟨cK27_7 ++ cPreambleChar, 0b10⟩
def preamble : Code16 := ⟨cPreambleChar ++ cPreambleChar, 0b00⟩
def sfd : Code16 := ⟨cPreambleChar ++ cPreambleSfd, 0b00⟩
def word (data : BitVec 16) : Code16 := ⟨data, 0b00⟩
def oddEnd (data : BitVec 16) : Code16 := ⟨data.extractLsb' 8 8 ++ cK29_7, 0b01⟩
def epd : Code16 := ⟨cK29_7 ++ cK23_7, 0b11⟩
def extend : Code16 := ⟨cK23_7 ++ cK23_7, 0b11⟩
def error : Code16 := ⟨cK30_7 ++ cK23_7, 0b11⟩

end Code16

namespace PcsFrame

def lastCodes16 (last : Option (BitVec 16 × Bool)) : List Code16 :=
  match last with
  | some (data, false) => [.word data, .epd]
  | some (data, true) => [.oddEnd data, .extend]
  | none => [.error, .error, .epd]

def codes16 (f : PcsFrame) : List Code16 :=
  [.spd, .preamble, .preamble, .sfd] ++ (f.words.map .word ++ lastCodes16 f.last)

/-- The idle codes the transmitter owes behind a frame. -/
def gap16 (f : PcsFrame) : Nat :=
  match f.last with
  | some (_, true) => 1
  | _ => 2

end PcsFrame

namespace TxPcs16

open TxFsm16 (commaIdleStep spdPreambleStep preambleStep sfdStep dataStep epdStep extendStep
  txInterframeGap)

/-- The FIFO shows no entry it does not have, and has one whenever it is read: for the
first read of a frame the flags have said so, the others are inside the frame. -/
structure Fed (s : TxPcs16) (i : TxPcsIn) : Prop where
  plain : i.Plain
  honest : i.fifoEmpty = false → s.fifo.entries ≠ []
  stocked : s.fifoReadInt i = true → i.fifoEmpty = false

instance (s : TxPcs16) (i : TxPcsIn) : Decidable (Fed s i) :=
  decidable_of_iff (i.Plain ∧ (i.fifoEmpty = false → s.fifo.entries ≠ []) ∧
    (s.fifoReadInt i = true → i.fifoEmpty = false))
    ⟨fun ⟨plain, honest, stocked⟩ => ⟨plain, honest, stocked⟩,
      fun ⟨plain, honest, stocked⟩ => ⟨plain, honest, stocked⟩⟩

/-- Between frames, `g` idle codes to go before the FIFO is looked at. -/
structure Rests (g : Nat) (entries : List (BitVec 18)) (s : TxPcs16) : Prop where
  state : s.fsm.txState = .commaIdle
  cntr : s.fsm.txCntr = BitVec.ofNat 4 g
  few : g ≤ 2
  rd : s.fsm.fifoRd = false
  ready : s.fifoReady = false
  fifo : s.fifo.entries = entries

/-- In a state that finds nothing at the FIFO's output. -/
structure Unread (state : TxPcs16State) (rd : Bool) (entries : List (BitVec 18)) (s : TxPcs16) :
    Prop where
  state : s.fsm.txState = state
  rd : s.fsm.fifoRd = rd
  ready : s.fifoReady = false
  fifo : s.fifo.entries = entries

/-- In a state that finds `e` there. -/
structure Read (state : TxPcs16State) (e : BitVec 18) (entries : List (BitVec 18)) (s : TxPcs16) :
    Prop where
  state : s.fsm.txState = state
  ready : s.fifoReady = true
  out : s.fifo.packedOut = e
  fifo : s.fifo.entries = entries

section Edge

variable {s : TxPcs16} {i : TxPcsIn}

theorem clear_of_plain (plain : i.Plain) : fifoClearND0 i = true := by
  simp [fifoClearND0, plain.rstN, plain.mcrPdown]

theorem clearN_of_plain (plain : i.Plain) : s.fifoClearN i = true := by
  simp [fifoClearN, clear_of_plain plain]

theorem unread_of_rd (rd : s.fsm.fifoRd = false) : s.fifoReadInt i = false := by
  simp [fifoReadInt, rd]

theorem Unread.fab {state : TxPcs16State} {rd : Bool} {entries : List (BitVec 18)}
    (at_ : Unread state rd entries s) : s.fifoFab = {} := by
  simp [fifoFab, at_.ready]

theorem Read.fab {state : TxPcs16State} {e : BitVec 18} {entries : List (BitVec 18)}
    (at_ : Read state e entries s) : s.fifoFab = fUnpackFifoContents e true true := by
  rw [fifoFab, at_.ready, at_.out]

/-- An edge at which nothing is read leaves the FIFO alone. -/
theorem advance_unread (plain : i.Plain) (unread : s.fifoReadInt i = false) :
    (s.advance i).fifoReady = false ∧ (s.advance i).fifo.entries = s.fifo.entries := by
  simp [advance, unread, reads, clearN_of_plain plain, TxFifo.read]

/-- An edge that reads takes the oldest entry. -/
theorem advance_read {e : BitVec 18} {rest : List (BitVec 18)} (fed : Fed s i)
    (read : s.fifoReadInt i = true) (front : s.fifo.entries = e :: rest) :
    (s.advance i).fifoReady = true ∧ (s.advance i).fifo.packedOut = e ∧ (s.advance i).fifo.entries = rest := by
  have some := fed.stocked read
  simp [advance, read, reads, some, front, clearN_of_plain fed.plain, TxFifo.read]

theorem fsmStep_plain (plain : i.Plain) : s.fsmStep i =
    match s.fsm.txState with
    | .commaIdle => s.fsm.commaIdleStep s.fifoFab s.fifoReady i
    | .cal => s.fsm.calStep i
    | .cr12 => s.fsm.cr12Step i
    | .cr34 => s.fsm.cr34Step i
    | .spdPreamble => s.fsm.spdPreambleStep
    | .preamble => s.fsm.preambleStep
    | .sfd => s.fsm.sfdStep
    | .data => s.fsm.dataStep s.fifoFab i
    | .epd => s.fsm.epdStep
    | .extend => s.fsm.extendStep
    | .genError => { s.fsm with txState := .epd } := by
  rw [fsmStep, TxFsm16.step, plain.running]
  rfl

@[simp] theorem advance_fsm : (s.advance i).fsm = s.fsmStep i := rfl

variable {g : Nat} {e e' : BitVec 18} {rest : List (BitVec 18)}

/-- The idle code at an edge without a sof to send. -/
theorem commaIdle_quiet (plain : i.Plain) (state : s.fsm.txState = .commaIdle)
    (sof : s.fifoFab.sof = false) :
    s.fsmStep i = { s.fsm with
      rmonTxUnderrun := false
      txError := false
      out := .idle (if i.disparity && s.fsm.txCatchDisparity then cD5_6 else cD16_2)
      txCatchDisparity := false
      txCntr := if s.fsm.txCntr = 0#4 then 0 else s.fsm.txCntr - 1#4
      fifoRd := s.fsm.txCntr == 0#4 && i.enoughData
      txState := .commaIdle } := by
  simp [fsmStep_plain plain, state, commaIdleStep, plain.anTxEn, plain.txCal, sof, Code16.idle]

theorem Rests.fab (rests : Rests g rest s) : s.fifoFab = {} := by
  simp [fifoFab, rests.ready]

theorem Rests.count (fed : Fed s i) (rests : Rests (g + 1) rest s) :
    (s.advance i).fsm.out.IsIdle ∧ Rests g rest (s.advance i) := by
  have quiet := commaIdle_quiet fed.plain rests.state (by simp [rests.fab])
  obtain ⟨ready, fifo⟩ := advance_unread fed.plain (unread_of_rd (i := i) rests.rd)
  have few : g ≤ 1 := Nat.le_of_succ_le_succ rests.few
  have positive : s.fsm.txCntr ≠ 0#4 := by
    rw [rests.cntr]
    interval_cases g <;> decide
  have next : s.fsm.txCntr - 1#4 = BitVec.ofNat 4 g := by
    rw [rests.cntr]
    interval_cases g <;> decide
  refine ⟨?_, ⟨by simp [quiet], by simp [quiet, positive, next], by omega, by simp [quiet, positive],
    ready, fifo.trans rests.fifo⟩⟩
  simp only [advance_fsm, quiet, Code16.IsIdle]
  split_ifs <;> simp

theorem Rests.wait (fed : Fed s i) (rests : Rests 0 rest s) (few : i.enoughData = false) :
    (s.advance i).fsm.out.IsIdle ∧ Rests 0 rest (s.advance i) := by
  have quiet := commaIdle_quiet fed.plain rests.state (by simp [rests.fab])
  obtain ⟨ready, fifo⟩ := advance_unread fed.plain (unread_of_rd (i := i) rests.rd)
  have zero : s.fsm.txCntr = 0#4 := rests.cntr
  refine ⟨?_, ⟨by simp [quiet], by simp [quiet, zero], by omega, by simp [quiet, few],
    ready, fifo.trans rests.fifo⟩⟩
  simp only [advance_fsm, quiet, Code16.IsIdle]
  split_ifs <;> simp

/-- The FIFO has enough in it: it will be read. -/
theorem Rests.ask (fed : Fed s i) (rests : Rests 0 rest s) (enough : i.enoughData = true) :
    (s.advance i).fsm.out.IsIdle ∧ Unread .commaIdle true rest (s.advance i) ∧
      (s.advance i).fsm.txCntr = 0#4 := by
  have quiet := commaIdle_quiet fed.plain rests.state (by simp [rests.fab])
  obtain ⟨ready, fifo⟩ := advance_unread fed.plain (unread_of_rd (i := i) rests.rd)
  have zero : s.fsm.txCntr = 0#4 := rests.cntr
  refine ⟨?_, ⟨by simp [quiet], by simp [quiet, zero, enough], ready, fifo.trans rests.fifo⟩,
    by simp [quiet, zero]⟩
  simp only [advance_fsm, quiet, Code16.IsIdle]
  split_ifs <;> simp

theorem ask_edge (fed : Fed s i) (asks : Unread .commaIdle true (e :: rest) s)
    (zero : s.fsm.txCntr = 0#4) :
    (s.advance i).fsm.out.IsIdle ∧ Read .commaIdle e rest (s.advance i) ∧
      (s.advance i).fsm.txCntr = 0#4 := by
  have quiet := commaIdle_quiet fed.plain asks.state (by simp [asks.fab])
  have read : s.fifoReadInt i = true := by simp [fifoReadInt, asks.fab, asks.rd, clear_of_plain fed.plain]
  obtain ⟨ready, out, fifo⟩ := advance_read fed read asks.fifo
  refine ⟨?_, ⟨by simp [quiet], ready, out, fifo⟩, by simp [quiet, zero]⟩
  simp only [advance_fsm, quiet, Code16.IsIdle]
  split_ifs <;> simp

theorem sof_edge (fed : Fed s i) (at_ : Read .commaIdle PcsFrame.sofEntry rest s)
    (zero : s.fsm.txCntr = 0#4) :
    (s.advance i).fsm.out.IsIdle ∧ Unread .spdPreamble false rest (s.advance i) ∧
      (s.advance i).fsm.txCntr = 1#4 := by
  have fab := at_.fab
  rw [unpack_sof] at fab
  have starts : s.fsmStep i = { s.fsm with
      rmonTxUnderrun := false
      txError := false
      out := .idle (if i.disparity && s.fsm.txCatchDisparity then cD5_6 else cD16_2)
      txCatchDisparity := false
      fifoRd := false
      txState := .spdPreamble
      txCntr := 1 } := by
    simp [fsmStep_plain fed.plain, at_.state, commaIdleStep, fed.plain.anTxEn, fab, at_.ready, zero,
      Code16.idle]
  have unread : s.fifoReadInt i = false := by simp [fifoReadInt, fab]
  obtain ⟨ready, fifo⟩ := advance_unread fed.plain unread
  refine ⟨?_, ⟨by simp [starts], by simp [starts], ready, fifo.trans at_.fifo⟩, by simp [starts]⟩
  simp only [advance_fsm, starts, Code16.IsIdle]
  split_ifs <;> simp

theorem spd_edge (fed : Fed s i) (at_ : Unread .spdPreamble false rest s) (one : s.fsm.txCntr = 1#4) :
    (s.advance i).fsm.out = .spd ∧ Unread .preamble false rest (s.advance i) ∧
      (s.advance i).fsm.txCntr = 1#4 := by
  obtain ⟨ready, fifo⟩ := advance_unread fed.plain (unread_of_rd (i := i) at_.rd)
  have sends : s.fsmStep i = s.fsm.spdPreambleStep := by simp [fsmStep_plain fed.plain, at_.state]
  exact ⟨by simp [sends, spdPreambleStep, Code16.spd],
    ⟨by simp [sends, spdPreambleStep], by simp [sends, spdPreambleStep], ready, fifo.trans at_.fifo⟩,
    by simp [sends, spdPreambleStep, one]⟩

theorem preamble_edge (fed : Fed s i) (at_ : Unread .preamble false rest s) (one : s.fsm.txCntr = 1#4) :
    (s.advance i).fsm.out = .preamble ∧ Unread .preamble false rest (s.advance i) ∧
      (s.advance i).fsm.txCntr = 0#4 := by
  obtain ⟨ready, fifo⟩ := advance_unread fed.plain (unread_of_rd (i := i) at_.rd)
  have sends : s.fsmStep i = s.fsm.preambleStep := by simp [fsmStep_plain fed.plain, at_.state]
  exact ⟨by simp [sends, preambleStep, Code16.preamble],
    ⟨by simp [sends, preambleStep, one], by simp [sends, preambleStep, one, at_.rd], ready,
      fifo.trans at_.fifo⟩, by simp [sends, preambleStep, one]⟩

theorem preamble_last_edge (fed : Fed s i) (at_ : Unread .preamble false rest s)
    (zero : s.fsm.txCntr = 0#4) :
    (s.advance i).fsm.out = .preamble ∧ Unread .sfd true rest (s.advance i) := by
  obtain ⟨ready, fifo⟩ := advance_unread fed.plain (unread_of_rd (i := i) at_.rd)
  have sends : s.fsmStep i = s.fsm.preambleStep := by simp [fsmStep_plain fed.plain, at_.state]
  exact ⟨by simp [sends, preambleStep, Code16.preamble],
    ⟨by simp [sends, preambleStep, zero], by simp [sends, preambleStep, zero], ready,
      fifo.trans at_.fifo⟩⟩

theorem sfd_edge (fed : Fed s i) (at_ : Unread .sfd true (e :: rest) s) :
    (s.advance i).fsm.out = .sfd ∧ Read .data e rest (s.advance i) ∧ (s.advance i).fsm.fifoRd = true := by
  have read : s.fifoReadInt i = true := by simp [fifoReadInt, at_.fab, at_.rd, clear_of_plain fed.plain]
  obtain ⟨ready, out, fifo⟩ := advance_read fed read at_.fifo
  have sends : s.fsmStep i = s.fsm.sfdStep := by simp [fsmStep_plain fed.plain, at_.state]
  exact ⟨by simp [sends, sfdStep, Code16.sfd], ⟨by simp [sends, sfdStep], ready, out, fifo⟩,
    by simp [sends, sfdStep, at_.rd]⟩

theorem word_edge (data : BitVec 16) (fed : Fed s i)
    (at_ : Read .data (PcsFrame.wordEntry data) (e :: rest) s) (rd : s.fsm.fifoRd = true) :
    (s.advance i).fsm.out = .word data ∧ Read .data e rest (s.advance i) ∧
      (s.advance i).fsm.fifoRd = true := by
  have fab := at_.fab
  rw [unpack_word] at fab
  have read : s.fifoReadInt i = true := by
    simp [fifoReadInt, fab, PcsFrame.wordFabric, rd, clear_of_plain fed.plain]
  have some := fed.stocked read
  obtain ⟨ready, out, fifo⟩ := advance_read fed read at_.fifo
  have sends : s.fsmStep i = { s.fsm with out := .word data } := by
    simp [fsmStep_plain fed.plain, at_.state, dataStep, fab, PcsFrame.wordFabric, some, Code16.word]
  exact ⟨by simp [sends], ⟨by simp [sends, at_.state], ready, out, fifo⟩, by simp [sends, rd]⟩

theorem last_edge (data : BitVec 16) (bytesel : Bool) (fed : Fed s i)
    (at_ : Read .data (PcsFrame.lastEntry (some (data, bytesel))) rest s) :
    (s.advance i).fsm.out = (if bytesel then .oddEnd data else .word data) ∧
      Unread (if bytesel then .extend else .epd) false rest (s.advance i) := by
  have fab := at_.fab
  rw [unpack_last] at fab
  have unread : s.fifoReadInt i = false := by simp [fifoReadInt, fab, PcsFrame.lastFabric]
  obtain ⟨ready, fifo⟩ := advance_unread fed.plain unread
  have sends : s.fsmStep i = { s.fsm with
      out := if bytesel then .oddEnd data else .word data
      txState := if bytesel then .extend else .epd
      fifoRd := false } := by
    cases bytesel <;>
      simp [fsmStep_plain fed.plain, at_.state, dataStep, fab, PcsFrame.lastFabric, Code16.word,
        Code16.oddEnd]
  exact ⟨by simp [sends], ⟨by simp [sends], by simp [sends], ready, fifo.trans at_.fifo⟩⟩

theorem error_edge (fed : Fed s i) (at_ : Read .data (PcsFrame.lastEntry none) rest s) :
    (s.advance i).fsm.out = .error ∧ Unread .genError false rest (s.advance i) := by
  have fab := at_.fab
  rw [unpack_error] at fab
  have unread : s.fifoReadInt i = false := by simp [fifoReadInt, fab]
  obtain ⟨ready, fifo⟩ := advance_unread fed.plain unread
  have sends : s.fsmStep i = { s.fsm with
      out := .error
      txState := .genError
      txError := false
      rmonTxUnderrun := true
      fifoRd := false } := by
    simp [fsmStep_plain fed.plain, at_.state, dataStep, fab, Code16.error]
  exact ⟨by simp [sends], ⟨by simp [sends], by simp [sends], ready, fifo.trans at_.fifo⟩⟩

/-- The code of the error stands for one more cycle. -/
theorem genError_edge (fed : Fed s i) (at_ : Unread .genError false rest s) :
    (s.advance i).fsm.out = s.fsm.out ∧ Unread .epd false rest (s.advance i) := by
  obtain ⟨ready, fifo⟩ := advance_unread fed.plain (unread_of_rd (i := i) at_.rd)
  have sends : s.fsmStep i = { s.fsm with txState := .epd } := by
    simp [fsmStep_plain fed.plain, at_.state]
  exact ⟨by simp [sends], ⟨by simp [sends], by simp [sends, at_.rd], ready, fifo.trans at_.fifo⟩⟩

theorem epd_edge (fed : Fed s i) (at_ : Unread .epd false rest s) :
    (s.advance i).fsm.out = .epd ∧ Rests 2 rest (s.advance i) := by
  obtain ⟨ready, fifo⟩ := advance_unread fed.plain (unread_of_rd (i := i) at_.rd)
  have sends : s.fsmStep i = s.fsm.epdStep := by simp [fsmStep_plain fed.plain, at_.state]
  exact ⟨by simp [sends, epdStep, Code16.epd],
    ⟨by simp [sends, epdStep], by simp [sends, epdStep, txInterframeGap], by decide,
      by simp [sends, epdStep, at_.rd], ready, fifo.trans at_.fifo⟩⟩

theorem extend_edge (fed : Fed s i) (at_ : Unread .extend false rest s) :
    (s.advance i).fsm.out = .extend ∧ Rests 1 rest (s.advance i) := by
  obtain ⟨ready, fifo⟩ := advance_unread fed.plain (unread_of_rd (i := i) at_.rd)
  have sends : s.fsmStep i = s.fsm.extendStep := by simp [fsmStep_plain fed.plain, at_.state]
  exact ⟨by simp [sends, extendStep, Code16.extend],
    ⟨by simp [sends, extendStep], by simp [sends, extendStep, txInterframeGap], by decide,
      by simp [sends, extendStep, at_.rd], ready, fifo.trans at_.fifo⟩⟩

end Edge

/-! ### Frames -/

/-- The code an edge puts on the line. -/
def sends (s : TxPcs16) (i : TxPcsIn) : Code16 := (s.advance i).fsm.out

variable {rest : List (BitVec 18)}

theorem words_shown (words : List (BitVec 16)) (e : BitVec 18) (tail : List (BitVec 18)) :
    Shows advance Fed sends
      (fun s => s.fsm.fifoRd = true ∧ ∃ first more, words.map PcsFrame.wordEntry ++ e :: tail =
        first :: more ∧ Read .data first more s)
      (words.map .word) (fun s => s.fsm.fifoRd = true ∧ Read .data e tail s) := by
  induction words with
  | nil =>
      intro s inputs length along start
      obtain ⟨rd, first, more, whole, at_⟩ := start
      obtain rfl := List.eq_nil_of_length_eq_zero length
      obtain ⟨rfl, rfl⟩ : e = first ∧ tail = more := by simpa using whole
      exact ⟨rfl, rd, at_⟩
  | cons data words ih =>
      refine Shows.cons ?_ ih
      rintro s i ⟨rd, first, more, whole, at_⟩ fed
      obtain ⟨rfl, rfl⟩ : PcsFrame.wordEntry data = first ∧
          words.map PcsFrame.wordEntry ++ e :: tail = more := by simpa using whole
      obtain ⟨next, more', split⟩ := List.exists_cons_of_ne_nil
        (show words.map PcsFrame.wordEntry ++ e :: tail ≠ [] by simp)
      rw [split] at at_
      obtain ⟨code, read, still⟩ := word_edge data fed at_ rd
      exact ⟨code, still, next, more', split, read⟩

theorem last_shown (last : Option (BitVec 16 × Bool)) (f : PcsFrame) (same : f.last = last) :
    Shows advance Fed sends (fun s => s.fsm.fifoRd = true ∧ Read .data (PcsFrame.lastEntry last) rest s)
      (PcsFrame.lastCodes16 last) (Rests f.gap16 rest) := by
  match last with
  | some (data, false) =>
      have gap : f.gap16 = 2 := by simp [PcsFrame.gap16, same]
      rw [gap]
      exact .cons (fun s i start fed => last_edge data false fed start.2)
        (.cons (fun s i at_ fed => epd_edge fed at_) .nil)
  | some (data, true) =>
      have gap : f.gap16 = 1 := by simp [PcsFrame.gap16, same]
      rw [gap]
      exact .cons (fun s i start fed => last_edge data true fed start.2)
        (.cons (fun s i at_ fed => extend_edge fed at_) .nil)
  | none =>
      have gap : f.gap16 = 2 := by simp [PcsFrame.gap16, same]
      rw [gap]
      refine .cons (M := fun s => s.fsm.out = .error ∧ Unread .genError false rest s)
        (fun s i start fed => ?_) (.cons (M := Unread .epd false rest) (fun s i start fed => ?_)
          (.cons (fun s i at_ fed => epd_edge fed at_) .nil))
      · obtain ⟨code, at_⟩ := error_edge fed start.2
        exact ⟨code, code, at_⟩
      · obtain ⟨code, at_⟩ := genError_edge fed start.2
        exact ⟨code.trans start.1, at_⟩

theorem frame_shown (f : PcsFrame) (rest : List (BitVec 18)) :
    Shows advance Fed sends (fun s => Unread .spdPreamble false (f.body ++ rest) s ∧ s.fsm.txCntr = 1#4)
      f.codes16 (Rests f.gap16 rest) := by
  have whole : f.body ++ rest = f.words.map PcsFrame.wordEntry ++ PcsFrame.lastEntry f.last :: rest := by
    simp [PcsFrame.body]
  obtain ⟨first, more, split⟩ := List.exists_cons_of_ne_nil
    (show f.words.map PcsFrame.wordEntry ++ PcsFrame.lastEntry f.last :: rest ≠ [] by simp)
  rw [PcsFrame.codes16, whole]
  refine .append (M := fun s => s.fsm.fifoRd = true ∧ Read .data first more s) ?_
    (.append (M := fun s => s.fsm.fifoRd = true ∧ Read .data (PcsFrame.lastEntry f.last) rest s) ?_
      (last_shown f.last f rfl))
  · rw [split]
    refine .cons (M := fun s => Unread .preamble false (first :: more) s ∧ s.fsm.txCntr = 1#4)
      (fun s i start fed => spd_edge fed start.1 start.2) ?_
    refine .cons (M := fun s => Unread .preamble false (first :: more) s ∧ s.fsm.txCntr = 0#4)
      (fun s i start fed => preamble_edge fed start.1 start.2) ?_
    refine .cons (M := Unread .sfd true (first :: more))
      (fun s i start fed => preamble_last_edge fed start.1 start.2) ?_
    exact .cons (fun s i at_ fed => (sfd_edge fed at_).imp_right And.symm) .nil
  · intro s inputs length along start
    exact words_shown f.words _ rest s inputs length along ⟨start.1, first, more, split, start.2⟩

/-! ### The line -/

/-- Between frames, with no read under way. -/
def Between (s : TxPcs16) : Prop :=
  s.fsm.txState = .commaIdle ∧ s.fsm.fifoRd = false ∧ s.fifoReady = false

instance (s : TxPcs16) : Decidable (Between s) := inferInstanceAs (Decidable (_ ∧ _))

/-- The environment of a run: the FIFO as above, and if it has entries for another frame,
its flags will once show enough of them. -/
structure Served (s : TxPcs16) (inputs : Nat → TxPcsIn) : Prop where
  fed : Throughout advance Fed s inputs
  refilled : ∀ t, (run advance s (upTo inputs t)).Between →
    (run advance s (upTo inputs t)).fifo.entries ≠ [] → ∃ u, (inputs (t + u)).enoughData = true

variable {g : Nat} {entries : List (BitVec 18)} {s : TxPcs16} {inputs : Nat → TxPcsIn}

theorem Served.after (served : Served s inputs) (n : Nat) :
    Served (run advance s (upTo inputs n)) (Clocked.after inputs n) := by
  refine ⟨served.fed.after n, fun t between some => ?_⟩
  rw [← run_append, ← upTo_add] at between some
  obtain ⟨u, enough⟩ := served.refilled (n + t) between some
  exact ⟨u, by rwa [Clocked.after, ← Nat.add_assoc]⟩

theorem Served.now (served : Served s inputs) : Fed s (inputs 0) := served.fed.now

def IdleRun (least : Nat) (codes : List Code16) : Prop :=
  least ≤ codes.length ∧ ∀ c ∈ codes, c.IsIdle

theorem idleRun_one {c : Code16} (idle : c.IsIdle) : IdleRun 1 [c] := by
  simp [IdleRun, idle]

theorem idleRun_append {m n : Nat} {codes more : List Code16} (first : IdleRun m codes)
    (second : IdleRun n more) : IdleRun (m + n) (codes ++ more) := by
  refine ⟨?_, fun c member => ?_⟩
  · rw [List.length_append]
    exact Nat.add_le_add first.1 second.1
  · rcases List.mem_append.1 member with here | there
    · exact first.2 c here
    · exact second.2 c there

theorem count_reaches (served : Served s inputs) (rests : Rests g entries s) :
    Reaches advance sends (IdleRun g) (Rests 0 entries) s inputs := by
  induction g generalizing s inputs with
  | zero => exact .here (by simp [IdleRun]) rests
  | succ g ih =>
      obtain ⟨idle, next⟩ := Rests.count served.now rests
      refine .trans (.edge (idleRun_one idle) next) (fun n there => ih (served.after n) there) ?_
      intro codes more first second
      rw [Nat.add_comm]
      exact idleRun_append first second

theorem wait_reaches (served : Served s inputs) (rests : Rests 0 entries s)
    (later : ∃ u, (inputs u).enoughData = true) :
    Reaches advance sends (IdleRun 1) (fun s => Unread .commaIdle true entries s ∧ s.fsm.txCntr = 0#4)
      s inputs := by
  obtain ⟨u, enough⟩ := later
  induction u generalizing s inputs with
  | zero =>
      obtain ⟨idle, next⟩ := Rests.ask served.now rests enough
      exact .edge (idleRun_one idle) next
  | succ u ih =>
      cases now : (inputs 0).enoughData with
      | true =>
          obtain ⟨idle, next⟩ := Rests.ask served.now rests now
          exact .edge (idleRun_one idle) next
      | false =>
          obtain ⟨idle, next⟩ := Rests.wait served.now rests now
          obtain ⟨n, codes, there⟩ := ih (served.after 1) next
            (by rwa [Clocked.after, Nat.add_comm])
          refine ⟨1 + n, ?_, by rwa [upTo_add, run_append]⟩
          rw [upTo_add, collect_append]
          obtain ⟨long, idles⟩ := idleRun_append (idleRun_one idle) codes
          exact ⟨Nat.le_of_succ_le long, idles⟩

/-- From rest to the start of the next frame. -/
theorem start_reaches (served : Served s inputs)
    (rests : Rests g (PcsFrame.sofEntry :: entries) s) :
    Reaches advance sends (IdleRun (g + 3))
      (fun s => Unread .spdPreamble false entries s ∧ s.fsm.txCntr = 1#4) s inputs := by
  refine .trans (B := IdleRun 3) (count_reaches served rests) (fun n there => ?_)
    fun _ _ => idleRun_append
  have served := served.after n
  have later : ∃ u, (after inputs n u).enoughData = true := by
    have some : (run advance s (upTo inputs n)).fifo.entries ≠ [] := by simp [there.fifo]
    obtain ⟨u, enough⟩ := served.refilled 0 ⟨there.state, there.rd, there.ready⟩ some
    exact ⟨u, by simpa using enough⟩
  generalize run advance s (upTo inputs n) = s at there served
  refine .trans (B := IdleRun 2) (wait_reaches served there later) (fun n there => ?_)
    fun _ _ => idleRun_append
  have served := served.after n
  refine .trans (B := IdleRun 1) (M := fun s => Read .commaIdle PcsFrame.sofEntry entries s ∧
    s.fsm.txCntr = 0#4) ?_ (fun n there => ?_) fun _ _ => idleRun_append
  · obtain ⟨idle, next⟩ := ask_edge served.now there.1 there.2
    exact .edge (idleRun_one idle) next
  · obtain ⟨idle, next⟩ := sof_edge (served.after n).now there.1 there.2
    exact .edge (idleRun_one idle) next

/-- Frames on the line, `g` idle codes owed before the first. -/
inductive Line : Nat → List PcsFrame → List Code16 → Prop where
  | done {g : Nat} : Line g [] []
  | frame {g : Nat} {f : PcsFrame} {fs : List PcsFrame} {idles codes : List Code16} :
      IdleRun (g + 3) idles → Line f.gap16 fs codes → Line g (f :: fs) (idles ++ f.codes16 ++ codes)

theorem line_reaches (frames : List PcsFrame) (served : Served s inputs)
    (rests : Rests g (frames.flatMap PcsFrame.entries) s) :
    Reaches advance sends (Line g frames) (fun s => ∃ g, Rests g [] s) s inputs := by
  induction frames generalizing g s inputs with
  | nil => exact .here .done ⟨g, rests⟩
  | cons f fs ih =>
      refine .trans (start_reaches served rests)
        (B := fun codes => ∃ rest, codes = f.codes16 ++ rest ∧ Line f.gap16 fs rest)
        (fun n there => ?_) ?_
      · have served := served.after n
        have whole := frame_shown f (fs.flatMap PcsFrame.entries)
        refine .trans (whole.reaches there served.fed) (fun n there => ih (served.after n) there) ?_
        rintro codes rest rfl line
        exact ⟨rest, rfl, line⟩
      · rintro idles codes idle ⟨rest, rfl, line⟩
        rw [← List.append_assoc]
        exact .frame idle line

/-- With nothing left to send the line stays idle. -/
theorem rest_idle (served : Served s inputs) (rests : ∃ g, Rests g [] s) (n : Nat) :
    IdleRun n (collect advance (fun s i => [s.sends i]) s (upTo inputs n)) := by
  induction n generalizing s inputs with
  | zero => simp [IdleRun, upTo]
  | succ n ih =>
      obtain ⟨g, rests⟩ := rests
      have step : (s.sends (inputs 0)).IsIdle ∧ ∃ g, Rests g [] (s.advance (inputs 0)) := by
        cases g with
        | zero =>
            have empty : (inputs 0).enoughData = false := by
              by_contra enough
              simp only [TxPcsIn.enoughData, Bool.not_eq_false, Bool.and_eq_true, Bool.not_eq_true'] at enough
              exact served.now.honest enough.1 rests.fifo
            obtain ⟨idle, next⟩ := Rests.wait served.now rests empty
            exact ⟨idle, 0, next⟩
        | succ g =>
            obtain ⟨idle, next⟩ := Rests.count served.now rests
            exact ⟨idle, g, next⟩
      rw [Nat.add_comm, upTo_add, collect_append]
      exact idleRun_append (idleRun_one step.1) (ih (served.after 1) step.2)

end TxPcs16

end WrCores.Endpoint
