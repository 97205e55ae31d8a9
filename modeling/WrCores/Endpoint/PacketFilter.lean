import Mathlib.Tactic
import WrCores.Clocked.Run
import WrCores.Endpoint.Pkg

/-!
ep_packet_filter.vhd: each data word of a frame starts one instruction, which is fetched, has its word read from the
backlog, is compared and executed in three stages. The microcode does not change while the filter is enabled. `done_int`
is taken to the system clock by gc_pulse_synchronizer, which is left out.
-/

namespace WrCores.Endpoint.PacketFilter

open Clocked

abbrev Program := BitVec 6 → BitVec 36

/-- `t_microcode_instruction`. -/
structure Insn where
  fin : Bool
  logic : Bool
  cmpBit : Bool
  cmpMask : BitVec 4
  cmpValue : BitVec 16
  offset : BitVec 6
  op : BitVec 3
  op2 : BitVec 3
  rd : BitVec 5
  ra : BitVec 5
  rb : BitVec 5
  rc : BitVec 5
  deriving DecidableEq, Repr

def fDecodeInsn (ir : BitVec 36) : Insn where
  fin := ir.getLsbD 35
  logic := ir.getLsbD 34
  cmpBit := ir.getLsbD 33
  cmpMask := ir.extractLsb' 29 4
  cmpValue := ir.extractLsb' 13 16
  offset := ir.extractLsb' 7 6
  op := ir.extractLsb' 0 3
  op2 := ir.extractLsb' 23 3
  rd := BitVec.ofBool (ir.getLsbD 34 && ir.getLsbD 7) ++ ir.extractLsb' 3 4
  ra := ir.extractLsb' 8 5
  rb := ir.extractLsb' 13 5
  rc := ir.extractLsb' 18 5

def fEval (a b : Bool) (op : BitVec 3) : Bool :=
  if op = 0b000 then a && b
  else if op = 0b100 then !(a && b)
  else if op = 0b001 then a || b
  else if op = 0b101 then !(a || b)
  else if op = 0b010 then a ^^ b
  else if op = 0b110 then !(a ^^ b)
  else if op = 0b011 then a
  else !a

def fPickReg (regs : BitVec 32) (index : BitVec 5) : Bool := regs.getLsbD index.toNat

def setReg (regs : BitVec 32) (index : BitVec 5) (value : Bool) : BitVec 32 :=
  if value then regs ||| BitVec.twoPow 32 index.toNat else regs &&& ~~~BitVec.twoPow 32 index.toNat

namespace Insn

variable (insn : Insn)

/-- `p_gen_mask`. -/
def mask : BitVec 16 :=
  if insn.cmpBit then BitVec.twoPow 16 insn.cmpMask.toNat
  else
    let digit (k : Nat) : BitVec 4 := if insn.cmpMask.getLsbD k then 0xf#4 else 0x0#4
    digit 3 ++ digit 2 ++ digit 1 ++ digit 0

def compares (word : BitVec 16) : Bool := word &&& insn.mask == insn.cmpValue

/-- The registers behind an instruction whose comparison gave `resultCmp`. -/
def execute (resultCmp : Bool) (regs : BitVec 32) : BitVec 32 :=
  let ra := if insn.logic then fPickReg regs insn.ra else resultCmp
  let rb := if insn.logic then fPickReg regs insn.rb else fPickReg regs insn.rd
  let rc := fPickReg regs insn.rc
  let result1 := fEval ra rb insn.op
  let result2 := fEval result1 rc insn.op2
  setReg regs insn.rd (if insn.logic then result2 else result1)

end Insn

structure In where
  snkFab : InternalFabric := {}
  rstN : Bool := true
  pfcr0Enable : Bool := true
  deriving DecidableEq, Repr

structure State where
  pc : BitVec 6
  stage1 : Bool
  stage2 : Bool
  stage3 : Bool
  mmRdata : BitVec 36
  ir : BitVec 36
  irD : BitVec 36
  backlog : BitVec 6 → BitVec 16
  pmemRdata : BitVec 16
  resultCmp : Bool
  regs : BitVec 32
  doneInt : Bool
  drop : Bool
  pclass : BitVec 8

/-- `stage3` and what it holds have no reset, but `stage2` is low as long as it lasts. -/
structure AfterReset (s : State) : Prop where
  pc : s.pc = 0
  stage1 : s.stage1 = false
  stage2 : s.stage2 = false
  stage3 : s.stage3 = false
  ir : s.ir = 0
  regs : s.regs = 0
  doneInt : s.doneInt = false
  drop : s.drop = false

namespace State

variable (s : State) (i : In)

def ends (i : In) : Bool := i.snkFab.error || i.snkFab.eof

/-- The last instruction is executed. -/
def finishes : Bool := s.stage3 && (fDecodeInsn s.irD).fin

def clears : Bool := !i.rstN || i.snkFab.eof || i.snkFab.error || s.doneInt

def flushes : Bool := !i.rstN || s.doneInt || i.snkFab.error

def resets (i : In) : Bool := !i.rstN || i.snkFab.sof

/-- `p_gen_status` takes the registers. -/
def reports : Bool := s.finishes || (ends i && !s.doneInt)

def step (program : Program) : State where
  pc := if s.clears i then 0 else if i.snkFab.dvalid then s.pc + 1 else s.pc
  stage1 := if s.clears i then false else i.snkFab.dvalid
  stage2 := if s.flushes i then false else s.stage1
  stage3 := s.stage2
  mmRdata := program s.pc
  ir := if s.flushes i then 0 else s.mmRdata
  irD := if s.stage2 then s.ir else s.irD
  backlog := if i.snkFab.dvalid then Function.update s.backlog s.pc i.snkFab.data else s.backlog
  pmemRdata := s.backlog (fDecodeInsn s.mmRdata).offset
  resultCmp := if s.stage2 then (fDecodeInsn s.ir).compares s.pmemRdata else s.resultCmp
  regs :=
    if s.clears i then 0 else if s.stage3 then (fDecodeInsn s.irD).execute s.resultCmp s.regs else s.regs
  doneInt :=
    if resets i then false else if !i.pfcr0Enable then false else if s.reports i then true else s.doneInt
  drop :=
    if resets i then false else if !i.pfcr0Enable then false
    else if s.reports i then s.regs.getLsbD 23 else s.drop
  pclass :=
    if resets i then s.pclass else if !i.pfcr0Enable then 0
    else if s.reports i then s.regs.extractLsb' 24 8 else s.pclass

end State

/-! ### The interpreter -/

/-- The registers behind the first instructions. -/
def interpret (program : Program) (words : List (BitVec 16)) : Nat → BitVec 32
  | 0 => 0
  | k + 1 =>
      let insn := fDecodeInsn (program (BitVec.ofNat 6 k))
      insn.execute (insn.compares (words.getD insn.offset.toNat 0)) (interpret program words k)

/-- The first instruction with the fin bit is at `f`, and those before it that compare look at a word that is there. -/
structure Runs (program : Program) (f : Nat) : Prop where
  bound : f ≤ 60
  fin : (fDecodeInsn (program (BitVec.ofNat 6 f))).fin = true
  first : ∀ k < f, (fDecodeInsn (program (BitVec.ofNat 6 k))).fin = false
  offsets : ∀ k < f, (fDecodeInsn (program (BitVec.ofNat 6 k))).logic = false →
    (fDecodeInsn (program (BitVec.ofNat 6 k))).offset.toNat ≤ k

/-- No other fin bit comes right behind the first. -/
def Lone (program : Program) (f : Nat) : Prop :=
  (fDecodeInsn (program (BitVec.ofNat 6 (f + 1)))).fin = false ∧
    (fDecodeInsn (program (BitVec.ofNat 6 (f + 2)))).fin = false

/-! ### The frames -/

/-- The words of the frame, whether it is still coming, how often `done_int` has risen since its start, and whether an
instruction with the fin bit did it. -/
structure Book where
  words : List (BitVec 16) := []
  coming : Bool := false
  pulses : Nat := 0
  byFin : Bool := false
  deriving DecidableEq, Repr

/-- `done_int` rises with this edge. -/
def rises (program : Program) (s : State) (i : In) : Bool := !s.doneInt && (s.step i program).doneInt

def Book.next (program : Program) (b : Book) (s : State) (i : In) : Book where
  words := if i.snkFab.sof then [] else if i.snkFab.dvalid then b.words ++ [i.snkFab.data] else b.words
  coming := if i.snkFab.sof then true else if State.ends i then false else b.coming
  pulses := if i.snkFab.sof then 0 else if rises program s i then b.pulses + 1 else b.pulses
  byFin := if i.snkFab.sof then false else if rises program s i then s.finishes else b.byFin

def stepBook (program : Program) (p : State × Book) (i : In) : State × Book :=
  (p.1.step i program, p.2.next program p.1 i)

/-- Frames: sof by itself, words with any gaps, and eof or error. The filter is enabled. -/
structure Frames (b : Book) (i : In) : Prop where
  sof : i.snkFab.sof = true → b.coming = false ∧ i.snkFab.dvalid = false ∧ State.ends i = false
  word : i.snkFab.dvalid = true → b.coming = true
  ends : State.ends i = true → b.coming = true
  rstN : i.rstN = true
  enable : i.pfcr0Enable = true

/-- No instruction is under way when a frame starts. -/
def Clear (s : State) (i : In) : Prop := i.snkFab.sof = true → s.stage2 = false

/-- What an edge may do. A verdict comes once in a frame and by its end; with `f + 4` words or before the end it is that
of the interpreter; and it stands until the next frame, if the first fin bit is alone. -/
structure Judges (program : Program) (f : Nat) (p : State × Book) (i : In) : Prop where
  once : rises program p.1 i = true → p.2.coming = true ∧ p.2.pulses = 0
  ended : State.ends i = true → (p.2.next program p.1 i).pulses = 1
  verdict : rises program p.1 i = true →
    State.ends i = false ∨ f + 4 ≤ (p.2.next program p.1 i).words.length →
    (p.1.step i program).pclass = (interpret program (p.2.next program p.1 i).words f).extractLsb' 24 8 ∧
      (p.1.step i program).drop = (interpret program (p.2.next program p.1 i).words f).getLsbD 23
  stands : Lone program f → p.2.byFin = true → i.snkFab.sof = false →
    (p.1.step i program).pclass = p.1.pclass ∧ (p.1.step i program).drop = p.1.drop

instance (program : Program) (f : Nat) : Decidable (Lone program f) := inferInstanceAs (Decidable (_ ∧ _))

instance (b : Book) (i : In) : Decidable (Frames b i) :=
  decidable_of_iff (_ ∧ _ ∧ _ ∧ _ ∧ _)
    ⟨fun ⟨a, b, c, d, e⟩ => ⟨a, b, c, d, e⟩, fun ⟨a, b, c, d, e⟩ => ⟨a, b, c, d, e⟩⟩

instance (s : State) (i : In) : Decidable (Clear s i) := inferInstanceAs (Decidable (_ → _))

instance (program : Program) (f : Nat) (p : State × Book) (i : In) : Decidable (Judges program f p i) :=
  decidable_of_iff (_ ∧ _ ∧ _ ∧ _) ⟨fun ⟨a, b, c, d⟩ => ⟨a, b, c, d⟩, fun ⟨a, b, c, d⟩ => ⟨a, b, c, d⟩⟩

/-! ### The interpreter and more words -/

section Interpreter

variable {program : Program} {f : Nat} {words more : List (BitVec 16)}

theorem getD_front (k : Nat) (inside : k < words.length) : (words ++ more).getD k 0 = words.getD k 0 := by
  rw [List.getD_eq_getElem?_getD, List.getD_eq_getElem?_getD, List.getElem?_append_left inside]

/-- What a logic instruction does has nothing to do with the comparison. -/
theorem execute_logic (insn : Insn) (logic : insn.logic = true) (a b : Bool) (regs : BitVec 32) :
    insn.execute a regs = insn.execute b regs := by
  simp [Insn.execute, logic]

/-- Words that come later are not looked at. -/
theorem interpret_front (runs : Runs program f) (k : Nat) (early : k ≤ f) (inside : k ≤ words.length) :
    interpret program (words ++ more) k = interpret program words k := by
  induction k with
  | zero => rfl
  | succ k ih =>
      simp only [interpret]
      rw [ih (by omega) (by omega)]
      cases logic : (fDecodeInsn (program (BitVec.ofNat 6 k))).logic with
      | true => exact execute_logic _ logic _ _ _
      | false =>
          have offset := runs.offsets k (by omega) logic
          rw [getD_front _ (by omega)]

theorem not_fin (runs : Runs program f) {a : Nat} (early : a ≤ f)
    (fin : (fDecodeInsn (program (BitVec.ofNat 6 a))).fin = true) : a = f := by
  by_contra other
  rw [runs.first a (by omega)] at fin
  exact Bool.false_ne_true fin

end Interpreter

/-! ### The pipeline -/

/-- Before the verdict: `a` instructions are executed, and one is in each stage that is up. -/
structure Works (program : Program) (f : Nat) (s : State) (b : Book) (a : Nat) : Prop where
  doneInt : s.doneInt = false
  pulses : b.pulses = 0
  byFin : b.byFin = false
  rests : b.coming = false → b.words = []
  early : a ≤ f
  count : b.words.length = a + s.stage3.toNat + s.stage2.toNat + s.stage1.toNat
  pc : s.pc = BitVec.ofNat 6 b.words.length
  regs : s.regs = interpret program b.words a
  execute : s.stage3 = true → s.irD = program (BitVec.ofNat 6 a)
  compare : s.stage3 = true → a < f → (fDecodeInsn s.irD).logic = false →
    s.resultCmp = (fDecodeInsn s.irD).compares (b.words.getD (fDecodeInsn s.irD).offset.toNat 0)
  look : s.stage2 = true → s.ir = program (BitVec.ofNat 6 (a + s.stage3.toNat))
  word : s.stage2 = true → a + s.stage3.toNat < f → (fDecodeInsn s.ir).logic = false →
    s.pmemRdata = b.words.getD (fDecodeInsn s.ir).offset.toNat 0
  fetch : s.stage1 = true → s.mmRdata = program (BitVec.ofNat 6 (a + s.stage3.toNat + s.stage2.toNat))
  backlog : ∀ k < b.words.length, s.backlog (BitVec.ofNat 6 k) = b.words.getD k 0

/-- Behind the verdict nothing is executed. -/
structure Judged (program : Program) (f : Nat) (s : State) (b : Book) : Prop where
  doneInt : s.doneInt = true
  pulses : b.pulses = 1
  alone : Lone program f → b.byFin = true →
    (s.stage3 = true → (fDecodeInsn s.irD).fin = false) ∧ (s.stage2 = true → (fDecodeInsn s.ir).fin = false)

def Kept (program : Program) (f : Nat) (s : State) (b : Book) : Prop :=
  (∃ a, Works program f s b a) ∨ Judged program f s b

section Edge

variable {program : Program} {f : Nat} {s : State} {b : Book} {i : In} {a : Nat}

theorem Works.length_le (works : Works program f s b a) : b.words.length ≤ a + 3 := by
  have count := works.count
  have third := s.stage3.toNat_le
  have second := s.stage2.toNat_le
  have first := s.stage1.toNat_le
  omega

/-- The instruction that finishes is the one at `f`. -/
theorem Works.finishes (works : Works program f s b a) (runs : Runs program f) (fin : s.finishes = true) :
    s.stage3 = true ∧ a = f := by
  rw [State.finishes, Bool.and_eq_true] at fin
  refine ⟨fin.1, not_fin runs works.early ?_⟩
  rw [← works.execute fin.1]
  exact fin.2

theorem Works.goes_on (works : Works program f s b a) (runs : Runs program f) (fin : s.finishes = false)
    (on : s.stage3 = true) : a < f := by
  rcases Nat.lt_or_eq_of_le works.early with less | rfl
  · exact less
  · rw [State.finishes, on, works.execute on, runs.fin] at fin
    exact absurd fin (by decide)

theorem ofNat_inj {j k : Nat} (jBound : j < 64) (kBound : k < 64) (same : BitVec.ofNat 6 j = BitVec.ofNat 6 k) :
    j = k := by
  have values := congrArg BitVec.toNat same
  rwa [BitVec.toNat_ofNat, BitVec.toNat_ofNat, Nat.mod_eq_of_lt jBound, Nat.mod_eq_of_lt kBound] at values

/-- The backlog holds the words up to the new one. -/
theorem backlog_step (works : Works program f s b a) (small : b.words.length < 64) (word : BitVec 16) :
    ∀ k < (b.words ++ [word]).length,
      Function.update s.backlog s.pc word (BitVec.ofNat 6 k) = (b.words ++ [word]).getD k 0 := by
  intro k inside
  rw [List.length_append, List.length_singleton] at inside
  rw [works.pc]
  rcases Nat.lt_or_eq_of_le (Nat.le_of_lt_succ inside) with less | rfl
  · have other : BitVec.ofNat 6 k ≠ BitVec.ofNat 6 b.words.length := by
      intro same
      have := ofNat_inj (by omega) small same
      omega
    rw [Function.update_of_ne other, works.backlog k less, getD_front k less]
  · rw [Function.update_self]
    simp [List.getD_eq_getElem?_getD]

theorem clears_false (rstN : i.rstN = true) (ends : State.ends i = false) (doneInt : s.doneInt = false) :
    s.clears i = false ∧ s.flushes i = false := by
  simp only [State.ends, Bool.or_eq_false_iff] at ends
  simp [State.clears, State.flushes, rstN, ends, doneInt]

/-- The stages move on while the frame does. -/
theorem works_step (works : Works program f s b a) (runs : Runs program f) (frames : Frames b i)
    (sof : i.snkFab.sof = false) (ends : State.ends i = false) (fin : s.finishes = false) :
    Works program f (s.step i program) (b.next program s i) (a + s.stage3.toNat) := by
  obtain ⟨clears, flushes⟩ := clears_false frames.rstN ends works.doneInt
  have length := works.length_le
  have early := works.early
  have bound := runs.bound
  have count := works.count
  have reports : s.reports i = false := by simp [State.reports, fin, ends]
  have doneInt : (s.step i program).doneInt = false := by
    simp [State.step, State.resets, frames.rstN, frames.enable, sof, reports, works.doneInt]
  have rises : rises program s i = false := by simp [PacketFilter.rises, doneInt]
  obtain ⟨more, words, size⟩ : ∃ more, (b.next program s i).words = b.words ++ more ∧
      more.length = i.snkFab.dvalid.toNat := by
    cases word : i.snkFab.dvalid with
    | true => exact ⟨[i.snkFab.data], by simp [Book.next, sof, word], rfl⟩
    | false => exact ⟨[], by simp [Book.next, sof, word], rfl⟩
  have stage1 : (s.step i program).stage1 = i.snkFab.dvalid := by simp [State.step, clears]
  have stage2 : (s.step i program).stage2 = s.stage1 := by simp [State.step, flushes]
  have stage3 : (s.step i program).stage3 = s.stage2 := rfl
  have longer : (b.words ++ more).length = b.words.length + i.snkFab.dvalid.toNat := by
    rw [List.length_append, size]
  refine ⟨doneInt, by simp [Book.next, sof, rises, works.pulses], by simp [Book.next, sof, rises, works.byFin],
    ?_, ?_, ?_, ?_, ?_, ?_, ?_, ?_, ?_, ?_, ?_⟩
  · intro rest
    have before : b.coming = false := by simpa [Book.next, sof, ends] using rest
    have quiet : i.snkFab.dvalid = false := by
      by_contra word
      simpa [before] using frames.word (by simpa using word)
    simp [Book.next, sof, quiet, works.rests before]
  · cases on : s.stage3 with
    | false => exact early
    | true => exact works.goes_on runs fin on
  · rw [words, longer, stage1, stage2, stage3]
    omega
  · rw [words, longer]
    cases word : i.snkFab.dvalid with
    | false => simp [State.step, clears, word, works.pc]
    | true => simp [State.step, clears, word, works.pc, BitVec.ofNat_add]
  · cases on : s.stage3 with
    | false =>
        have kept : (s.step i program).regs = s.regs := by simp [State.step, clears, on]
        rw [kept, works.regs, words]
        exact (interpret_front runs a early (by omega)).symm
    | true =>
        have less := works.goes_on runs fin on
        have one : s.stage3.toNat = 1 := by rw [on]; rfl
        have next : (s.step i program).regs = (fDecodeInsn s.irD).execute s.resultCmp s.regs := by
          simp [State.step, clears, on]
        rw [next, words, Bool.toNat_true, interpret_front runs (a + 1) less (by omega), interpret, works.regs,
          works.execute on]
        cases logic : (fDecodeInsn (program (BitVec.ofNat 6 a))).logic with
        | true => exact execute_logic _ logic _ _ _
        | false =>
            have compare := works.compare on less
            rw [works.execute on] at compare
            rw [compare logic]
  · intro on
    have here : s.stage2 = true := on
    have next : (s.step i program).irD = s.ir := by simp [State.step, here]
    rw [next, works.look here]
  · intro on less logic
    have here : s.stage2 = true := on
    have next : (s.step i program).irD = s.ir := by simp [State.step, here]
    have cmp : (s.step i program).resultCmp = (fDecodeInsn s.ir).compares s.pmemRdata := by simp [State.step, here]
    rw [next] at logic ⊢
    have one : s.stage2.toNat = 1 := by rw [here]; rfl
    have offset := runs.offsets (a + s.stage3.toNat) less (by rw [← works.look here]; exact logic)
    rw [← works.look here] at offset
    rw [cmp, words, getD_front _ (by omega), works.word here less logic]
  · intro on
    rw [stage2] at on
    have next : (s.step i program).ir = s.mmRdata := by simp [State.step, flushes]
    rw [next, works.fetch on, stage3]
  · intro on less logic
    rw [stage2] at on
    rw [stage3] at less
    have next : (s.step i program).ir = s.mmRdata := by simp [State.step, flushes]
    have read : (s.step i program).pmemRdata = s.backlog (fDecodeInsn s.mmRdata).offset := rfl
    rw [next] at logic ⊢
    have one : s.stage1.toNat = 1 := by rw [on]; rfl
    have offset := runs.offsets _ less (by rw [← works.fetch on]; exact logic)
    rw [← works.fetch on] at offset
    have inside : (fDecodeInsn s.mmRdata).offset.toNat < b.words.length := by omega
    have held := works.backlog _ inside
    rw [BitVec.ofNat_toNat, BitVec.setWidth_eq] at held
    rw [read, words, getD_front _ inside, held]
  · intro on
    have read : (s.step i program).mmRdata = program s.pc := rfl
    rw [read, works.pc, stage2, stage3, count]
  · cases word : i.snkFab.dvalid with
    | false =>
        obtain rfl : more = [] := List.eq_nil_of_length_eq_zero (by rw [size, word]; rfl)
        have kept : (s.step i program).backlog = s.backlog := by simp [State.step, word]
        rw [kept, words, List.append_nil]
        exact works.backlog
    | true =>
        have next : (s.step i program).backlog = Function.update s.backlog s.pc i.snkFab.data := by
          simp [State.step, word]
        have grown : (b.next program s i).words = b.words ++ [i.snkFab.data] := by simp [Book.next, sof, word]
        rw [next, grown]
        exact backlog_step works (by omega) _

/-- A verdict. -/
theorem works_judged (works : Works program f s b a) (runs : Runs program f) (frames : Frames b i)
    (sof : i.snkFab.sof = false) (over_ : State.ends i = true ∨ s.finishes = true) :
    Judged program f (s.step i program) (b.next program s i) ∧ rises program s i = true := by
  have reports : s.reports i = true := by
    rcases over_ with ends | fin
    · simp [State.reports, ends, works.doneInt]
    · simp [State.reports, fin]
  have doneInt : (s.step i program).doneInt = true := by
    simp [State.step, State.resets, frames.rstN, frames.enable, sof, reports]
  have rises : rises program s i = true := by simp [PacketFilter.rises, doneInt, works.doneInt]
  refine ⟨⟨doneInt, by simp [Book.next, sof, rises, works.pulses], fun lone byFin => ⟨fun on => ?_, fun on => ?_⟩⟩,
    rises⟩
  · have fin : s.finishes = true := by simpa [Book.next, sof, rises] using byFin
    obtain ⟨third, rfl⟩ := works.finishes runs fin
    have here : s.stage2 = true := on
    have next : (s.step i program).irD = s.ir := by simp [State.step, here]
    rw [next, works.look here, third]
    exact lone.1
  · have fin : s.finishes = true := by simpa [Book.next, sof, rises] using byFin
    obtain ⟨third, rfl⟩ := works.finishes runs fin
    have flushes : s.flushes i = false := by
      by_contra high
      simp [State.step, high] at on
    have here : s.stage1 = true := by simpa [State.step, flushes] using on
    have next : (s.step i program).ir = s.mmRdata := by simp [State.step, flushes]
    rw [next, works.fetch here, third]
    cases s.stage2 with
    | false => exact lone.1
    | true => exact lone.2

theorem judged_step (judged : Judged program f s b) (frames : Frames b i) (sof : i.snkFab.sof = false) :
    Judged program f (s.step i program) (b.next program s i) := by
  have rises : rises program s i = false := by simp [PacketFilter.rises, judged.doneInt]
  have flushes : s.flushes i = true := by simp [State.flushes, judged.doneInt]
  refine ⟨?_, by simp [Book.next, sof, rises, judged.pulses], fun lone byFin => ⟨fun on => ?_, fun on => ?_⟩⟩
  · simp [State.step, State.resets, frames.rstN, frames.enable, sof, judged.doneInt]
  · have before : b.byFin = true := by simpa [Book.next, sof, rises] using byFin
    have here : s.stage2 = true := on
    have next : (s.step i program).irD = s.ir := by simp [State.step, here]
    rw [next]
    exact (judged.alone lone before).2 here
  · simp [State.step, flushes] at on

/-- A frame starts with nothing under way. -/
theorem starts_step (kept : Kept program f s b) (frames : Frames b i) (clear : Clear s i)
    (sof : i.snkFab.sof = true) :
    Works program f (s.step i program) (b.next program s i) 0 := by
  have second := clear sof
  obtain ⟨coming, word, ends⟩ := frames.sof sof
  have third : (s.step i program).stage3 = false := second
  have others : (s.step i program).stage1 = false ∧ (s.step i program).stage2 = false ∧ (s.step i program).pc = 0 ∧
      (s.step i program).regs = 0 := by
    rcases kept with ⟨a, works⟩ | judged
    · obtain ⟨clears, flushes⟩ := clears_false frames.rstN ends works.doneInt
      have none := works.rests coming
      have count := works.count
      rw [none, List.length_nil, second] at count
      have first : s.stage1 = false := Bool.toNat_eq_zero.1 (by omega)
      have last : s.stage3 = false := Bool.toNat_eq_zero.1 (by omega)
      obtain rfl : a = 0 := by omega
      have pc := works.pc
      have regs := works.regs
      rw [none] at pc
      simp [State.step, clears, flushes, word, first, last, pc, regs, interpret]
    · have clears : s.clears i = true := by simp [State.clears, judged.doneInt]
      have flushes : s.flushes i = true := by simp [State.flushes, judged.doneInt]
      simp [State.step, clears, flushes]
  obtain ⟨first, second, pc, regs⟩ := others
  have words : (b.next program s i).words = [] := by simp [Book.next, sof]
  refine ⟨by simp [State.step, State.resets, sof], by simp [Book.next, sof], by simp [Book.next, sof],
    fun _ => words, Nat.zero_le f, ?_, ?_, ?_, ?_, ?_, ?_, ?_, ?_, ?_⟩
  · rw [words, first, second, third]
    rfl
  · rw [words, pc]
    rfl
  · rw [regs]
    rfl
  · simp [third]
  · simp [third]
  · simp [second]
  · simp [second]
  · simp [first]
  · simp [words]

theorem kept_step (kept : Kept program f s b) (runs : Runs program f) (frames : Frames b i) (clear : Clear s i) :
    Kept program f (s.step i program) (b.next program s i) := by
  cases sof : i.snkFab.sof with
  | true => exact .inl ⟨0, starts_step kept frames clear sof⟩
  | false =>
      rcases kept with ⟨a, works⟩ | judged
      · by_cases over_ : State.ends i = true ∨ s.finishes = true
        · exact .inr (works_judged works runs frames sof over_).1
        · rw [not_or, Bool.not_eq_true, Bool.not_eq_true] at over_
          exact .inl ⟨_, works_step works runs frames sof over_.1 over_.2⟩
      · exact .inr (judged_step judged frames sof)

/-- A verdict by an instruction, or at the end of a long enough frame, is the interpreter's. -/
theorem works_verdict (works : Works program f s b a) (runs : Runs program f) (frames : Frames b i)
    (sof : i.snkFab.sof = false) (rises : rises program s i = true)
    (due : State.ends i = false ∨ f + 4 ≤ (b.next program s i).words.length) :
    s.regs = interpret program (b.next program s i).words f := by
  obtain ⟨more, words, size⟩ : ∃ more, (b.next program s i).words = b.words ++ more ∧ more.length ≤ 1 := by
    cases word : i.snkFab.dvalid with
    | true => exact ⟨[i.snkFab.data], by simp [Book.next, sof, word], le_rfl⟩
    | false => exact ⟨[], by simp [Book.next, sof, word], Nat.zero_le 1⟩
  have length := works.length_le
  have early := works.early
  have count := works.count
  have third := s.stage3.toNat_le
  have second := s.stage2.toNat_le
  have first := s.stage1.toNat_le
  have fin : s.finishes = true := by
    rcases due with goes | long
    · have reports : s.reports i = true := by
        by_contra none
        rw [Bool.not_eq_true] at none
        simp [PacketFilter.rises, State.step, State.resets, frames.rstN, frames.enable, sof, none] at rises
      simpa [State.reports, goes] using reports
    · -- all stages are up, and the first of them holds the last instruction
      rw [words, List.length_append] at long
      have on : s.stage3 = true := by
        by_contra off
        rw [Bool.not_eq_true] at off
        rw [off, Bool.toNat_false] at count
        omega
      obtain rfl : a = f := by omega
      rw [State.finishes, on, works.execute on, runs.fin]
      rfl
  obtain ⟨on, rfl⟩ := works.finishes runs fin
  rw [words, interpret_front runs a le_rfl (by omega), works.regs]

theorem judges_of_clear (kept : Kept program f s b) (runs : Runs program f) (frames : Frames b i) :
    Judges program f (s, b) i := by
  have quiet : i.snkFab.sof = true → rises program s i = false := by
    intro sof
    simp [rises, State.step, State.resets, sof]
  have no_sof : State.ends i = true → i.snkFab.sof = false := by
    intro ends
    by_contra sof
    rw [(frames.sof (by simpa using sof)).2.2] at ends
    exact Bool.false_ne_true ends
  rcases kept with ⟨a, works⟩ | judged
  · refine ⟨fun up => ⟨?_, works.pulses⟩, fun ends => ?_, fun up due => ?_, fun _ byFin => ?_⟩
    · -- without a frame nothing ends and nothing is executed
      by_contra rest
      rw [Bool.not_eq_true] at rest
      have ends : State.ends i = false := by
        by_contra ends
        exact Bool.false_ne_true (rest.symm.trans (frames.ends (by simpa using ends)))
      have count := works.count
      rw [works.rests rest, List.length_nil] at count
      have third : s.stage3 = false := Bool.toNat_eq_zero.1 (by omega)
      simp [rises, State.step, State.reports, State.finishes, third, ends, works.doneInt] at up
    · exact (works_judged works runs frames (no_sof ends) (.inl ends)).1.pulses
    · have sof : i.snkFab.sof = false := by
        by_contra sof
        rw [quiet (by simpa using sof)] at up
        exact Bool.false_ne_true up
      have reports : s.reports i = true := by
        by_contra none
        rw [Bool.not_eq_true] at none
        simp [rises, State.step, State.resets, frames.rstN, frames.enable, sof, none, works.doneInt] at up
      rw [← works_verdict works runs frames sof up due]
      simp [State.step, State.resets, frames.rstN, frames.enable, sof, reports]
    · exact absurd (works.byFin.symm.trans byFin) Bool.false_ne_true
  · have never : rises program s i = false := by simp [rises, judged.doneInt]
    refine ⟨fun up => ?_, fun ends => ?_, fun up => ?_, fun lone byFin sof => ?_⟩
    · exact absurd (never.symm.trans up) Bool.false_ne_true
    · exact (judged_step judged frames (no_sof ends)).pulses
    · exact absurd (never.symm.trans up) Bool.false_ne_true
    · have fin : s.finishes = false := by
        cases on : s.stage3 with
        | false => simp [State.finishes, on]
        | true => simp [State.finishes, (judged.alone lone byFin).1 on]
      simp [State.step, State.resets, State.reports, frames.rstN, frames.enable, sof, fin, judged.doneInt]

end Edge

theorem verdicts_interpreted (program : Program) (f : Nat) (s : State) (inputs : List In) (runs : Runs program f)
    (reset : AfterReset s) (frames : Along (stepBook program) (fun p i => Frames p.2 i) (s, {}) inputs)
    (clear : Along (stepBook program) (fun p i => Clear p.1 i) (s, {}) inputs) :
    Along (stepBook program) (Judges program f) (s, {}) inputs := by
  have start : Kept program f s {} := by
    refine .inl ⟨0, reset.doneInt, rfl, rfl, fun _ => rfl, Nat.zero_le f, ?_, reset.pc, reset.regs, ?_, ?_, ?_, ?_,
      ?_, ?_⟩
    · simp [reset.stage1, reset.stage2, reset.stage3]
    · simp [reset.stage3]
    · simp [reset.stage3]
    · simp [reset.stage2]
    · simp [reset.stage2]
    · simp [reset.stage1]
    · simp
  exact (frames.and clear).yields (fun p : State × Book => Kept program f p.1 p.2)
    (fun _ _ kept both => kept_step kept runs both.1 both.2)
    (fun _ _ kept both => judges_of_clear kept runs both.1) start

/-! ### A frame right behind a short one -/

section Short

/-- Register 24 is turned over, then the fin bit. -/
def toggle : Program := fun k =>
  if k = 0 then 0x4018018c7#36 else if k = 1 then 0x800000000#36 else 0

theorem toggle_runs : Runs toggle 1 where
  bound := by decide
  fin := by decide
  first := by decide
  offsets := by decide

def resetState : State :=
  ⟨0, false, false, false, 0, 0, 0, fun _ => 0, 0, false, 0, false, false, 0⟩

def sof : In := { snkFab := { sof := true } }

def word : In := { snkFab := { dvalid := true } }

def eof : In := { snkFab := { eof := true } }

def fiveWords : List In := [sof, word, word, word, word, word, eof, {}]

theorem verdicts_interpreted_apart :
    Along (stepBook toggle) (Judges toggle 1) (resetState, {}) ([sof, word, eof, {}] ++ fiveWords) :=
  verdicts_interpreted toggle 1 resetState _ toggle_runs ⟨rfl, rfl, rfl, rfl, rfl, rfl, rfl, rfl⟩ (by decide)
    (by decide)

/-- What the short frame left in the pipeline turns the register over once more. -/
theorem verdict_turned : Runs toggle 1 ∧ AfterReset resetState ∧
    Along (stepBook toggle) (fun p i => Frames p.2 i) (resetState, {}) ([sof, word, eof] ++ fiveWords) ∧
    ¬Along (stepBook toggle) (Judges toggle 1) (resetState, {}) ([sof, word, eof] ++ fiveWords) :=
  ⟨toggle_runs, ⟨rfl, rfl, rfl, rfl, rfl, rfl, rfl, rfl⟩, by decide, by decide⟩

end Short

end WrCores.Endpoint.PacketFilter
