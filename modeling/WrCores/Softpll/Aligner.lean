import WrCores.Clocked.Run
import WrCores.Words.Gray

/-!
spll_aligner.vhd, the counters of both clocks and the samples. An event holds a rising edge of `clk_in_i`, of
`clk_ref_i`, or both; in an event with both, `cnt_in_gray` is sampled while it changes, and each of its bits may be
the old or the new one.
-/

namespace WrCores.Softpll.Aligner

open Clocked Words.Gray

structure Generics where
  gRefClockRate : Nat := 125000000
  gInClockRate : Nat := 10000000
  gSampleRate : Nat := 100

def Generics.cDivTicks (p : Generics) : Nat := p.gRefClockRate / p.gSampleRate

structure InEdge where
  ppsExtA : Bool := false
  rstNExt : Bool := true
  deriving DecidableEq, Repr

structure RefEdge where
  ppsCsyncP1 : Bool := false
  rstNRef : Bool := true
  deriving DecidableEq, Repr

structure InDomain (w : Nat) where
  ppsExtD0 : Bool
  cntInBin : BitVec w
  cntInGray : BitVec w
  deriving DecidableEq, Repr

structure RefDomain (w : Nat) where
  cntRefBin : BitVec w
  cntRefDiv : BitVec w
  refDivP : Bool
  cntInGrayX : BitVec w
  cntInGrayXd : BitVec w
  sampleCinO : BitVec w
  sampleCrefO : BitVec w
  deriving DecidableEq, Repr

variable {w : Nat} (p : Generics)

/-- `p_in_counter`. -/
def inCounter (cntInBin : BitVec w) (preset : Bool) : BitVec w :=
  if preset then BitVec.ofNat w 2 else if cntInBin.toNat + 1 = p.gInClockRate then 0 else cntInBin + 1

namespace InDomain

def preset (s : InDomain w) (i : InEdge) : Bool := (!s.ppsExtD0 && i.ppsExtA) || !i.rstNExt

def step (s : InDomain w) (i : InEdge) : InDomain w where
  ppsExtD0 := i.ppsExtA
  cntInBin := inCounter p s.cntInBin (s.preset i)
  cntInGray := encode s.cntInBin

end InDomain

namespace RefDomain

def step (s : RefDomain w) (r : RefEdge) (cntInGray : BitVec w) : RefDomain w where
  cntRefBin :=
    if r.ppsCsyncP1 || !r.rstNRef then 0 else if s.cntRefBin.toNat + 1 = p.gRefClockRate then 0 else s.cntRefBin + 1
  refDivP :=
    if r.ppsCsyncP1 || !r.rstNRef then false else decide (s.cntRefDiv.toNat + 2 = p.cDivTicks)
  cntRefDiv :=
    if r.ppsCsyncP1 || !r.rstNRef then 0 else if s.cntRefDiv.toNat + 1 = p.cDivTicks then 0 else s.cntRefDiv + 1
  cntInGrayX := cntInGray
  cntInGrayXd := s.cntInGrayX
  sampleCinO := if s.refDivP then decode s.cntInGrayXd 1 Nat.one_pos else s.sampleCinO
  sampleCrefO := if s.refDivP then s.cntRefBin else s.sampleCrefO

end RefDomain

structure Event (w : Nat) where
  clkIn : Option InEdge
  clkRef : Option RefEdge
  chosen : BitVec w

structure State (w : Nat) where
  ins : InDomain w
  ref : RefDomain w
  deriving DecidableEq, Repr

namespace State

/-- `cnt_in_gray` as an edge of the reference clock finds it. -/
def found (s : State w) (e : Event w) : BitVec w :=
  match e.clkIn with
  | some i => mixture e.chosen s.ins.cntInGray (s.ins.step p i).cntInGray
  | none => s.ins.cntInGray

def step (s : State w) (e : Event w) : State w where
  ins := e.clkIn.elim s.ins (s.ins.step p)
  ref := e.clkRef.elim s.ref fun r => s.ref.step p r (s.found p e)

end State

/-! ### Samples -/

/-- The values that were encoded, in their order, each with the preset that came with its edge. -/
def encoded (s : State w) (es : List (Event w)) : List (BitVec w × Bool) :=
  collect (State.step p) (fun s e => e.clkIn.elim [] fun i => [(s.ins.cntInBin, s.ins.preset i)]) s es

/-- `cnt_in_gray` is sampled behind `es`, and the last edge puts it out, two reference cycles later. -/
structure Sampling (s : State w) (es : List (Event w)) (clkIn : Option InEdge) (r : RefEdge) (mid : List (Event w))
    (last : Event w) : Prop where
  one : mid.countP (·.clkRef.isSome) = 1
  out : last.clkRef.isSome = true
  taken : ∀ chosen, (run (State.step p) s (es ++ ⟨clkIn, some r, chosen⟩ :: mid)).ref.refDivP = true

/-- The code of `old` and the one behind it differ in one bit at most. -/
def Steady (old : BitVec w) (preset : Bool) : Prop :=
  if preset then ∃ k, old = BitVec.ofNat w 2 ^^^ ones w k
  else old.toNat + 1 = p.gInClockRate → ∃ k, p.gInClockRate = 2 ^ k

variable {p}

theorem steady_iff (old : BitVec w) (preset : Bool) :
    Steady p old preset ↔ ∃ k, old ^^^ inCounter p old preset = ones w k := by
  rw [Steady, inCounter]
  cases preset with
  | true =>
      simp only [if_true]
      refine exists_congr fun k => ?_
      constructor
      · rintro rfl
        rw [BitVec.xor_comm, ← BitVec.xor_assoc, BitVec.xor_self, BitVec.zero_xor]
      · intro block
        rw [← block, BitVec.xor_comm old, ← BitVec.xor_assoc, BitVec.xor_self, BitVec.zero_xor]
  | false =>
      simp only [Bool.false_eq_true, if_false]
      -- only the wrap to zero can change more than a block of ones
      by_cases wraps : old.toNat + 1 = p.gInClockRate
      · rw [if_pos wraps]
        simp only [wraps, forall_const]
        have zero : old ^^^ 0 = old := BitVec.xor_zero
        rw [zero, ← wraps]
        constructor
        · rintro ⟨k, power⟩
          refine ⟨k, BitVec.eq_of_toNat_eq ?_⟩
          have inside : k ≤ w := (Nat.pow_le_pow_iff_right Nat.one_lt_two).1 (power ▸ old.isLt)
          rw [toNat_ones, min_eq_left inside]
          omega
        · rintro ⟨k, rfl⟩
          refine ⟨min k w, ?_⟩
          rw [toNat_ones, Nat.sub_add_cancel (Nat.two_pow_pos _)]
      · rw [if_neg wraps]
        exact iff_of_true (fun now => absurd now wraps) (xor_add_one old)

/-! ### Runs -/

theorem encoded_snoc (s : State w) (es : List (Event w)) (e : Event w) : encoded p s (es ++ [e]) = encoded p s es ++
    e.clkIn.elim [] fun i => [((run (State.step p) s es).ins.cntInBin, (run (State.step p) s es).ins.preset i)] := by
  rw [encoded, collect_append]
  simp [encoded]

/-- The last value encoded is in `cnt_in_gray`, and the counter has gone on from it. -/
theorem last_encoded {s : State w} {es : List (Event w)} {before : List (BitVec w × Bool)} {old : BitVec w}
    {preset : Bool} (last : encoded p s es = before ++ [(old, preset)]) :
    (run (State.step p) s es).ins.cntInGray = encode old ∧
      (run (State.step p) s es).ins.cntInBin = inCounter p old preset := by
  induction es using List.reverseRecOn with
  | nil => simp [encoded] at last
  | append_singleton es e ih =>
      rw [encoded_snoc] at last
      rw [run_append, run_cons, run_nil, State.step]
      cases clkIn : e.clkIn with
      | none =>
          rw [clkIn, Option.elim_none, List.append_nil] at last
          exact ih last
      | some i =>
          rw [clkIn, Option.elim_some] at last
          obtain ⟨-, same⟩ := List.append_inj' last rfl
          obtain ⟨rfl, rfl⟩ := Prod.mk.inj (List.singleton_inj.1 same)
          exact ⟨rfl, rfl⟩

theorem quiet_ref {mid : List (Event w)} (none : mid.countP (·.clkRef.isSome) = 0) (s : State w) :
    (run (State.step p) s mid).ref = s.ref := by
  induction mid generalizing s with
  | nil => rfl
  | cons e rest ih =>
      rw [List.countP_eq_zero] at none
      have noEdge : e.clkRef = .none := Option.not_isSome_iff_eq_none.1 (none e List.mem_cons_self)
      rw [run_cons, ih (List.countP_eq_zero.2 fun e here => none e (List.mem_cons_of_mem _ here)), State.step, noEdge]
      rfl

theorem delayed {mid : List (Event w)} (one : mid.countP (·.clkRef.isSome) = 1) (s : State w) :
    (run (State.step p) s mid).ref.cntInGrayXd = s.ref.cntInGrayX := by
  induction mid generalizing s with
  | nil => cases one
  | cons e rest ih =>
      rw [run_cons]
      rw [List.countP_cons] at one
      cases clkRef : e.clkRef with
      | none =>
          rw [ih (by simpa [clkRef] using one), State.step, clkRef]
          rfl
      | some r =>
          rw [quiet_ref (by simpa [clkRef] using one), State.step, clkRef]
          rfl

variable {s : State w} {es mid : List (Event w)} {clkIn : Option InEdge} {r : RefEdge} {last : Event w}

theorem Sampling.sample (sampling : Sampling p s es clkIn r mid last) (chosen : BitVec w) :
    (run (State.step p) s (es ++ ⟨clkIn, some r, chosen⟩ :: mid ++ [last])).ref.sampleCinO =
      decode ((run (State.step p) s es).found p ⟨clkIn, some r, chosen⟩) 1 Nat.one_pos := by
  obtain ⟨out, isOut⟩ := Option.isSome_iff_exists.1 sampling.out
  have taken := sampling.taken chosen
  rw [run_append, run_cons, run_nil]
  generalize at_last : run (State.step p) s (es ++ ⟨clkIn, some r, chosen⟩ :: mid) = t at taken ⊢
  have shown : t.ref.cntInGrayXd = (run (State.step p) s es).found p ⟨clkIn, some r, chosen⟩ := by
    rw [← at_last, run_append, run_cons, delayed sampling.one]
    rfl
  rw [State.step, isOut, Option.elim_some, RefDomain.step, taken, if_pos rfl, shown]

/-- The two values encoded last before the sample. -/
theorem sample_recent_iff {before : List (BitVec w × Bool)} {old new : BitVec w} {preset preset' : Bool}
    (sampling : Sampling p s es clkIn r mid last)
    (recent : encoded p s (es ++ [⟨clkIn, some r, 0⟩]) = before ++ [(old, preset), (new, preset')]) :
    (∀ chosen,
      (run (State.step p) s (es ++ ⟨clkIn, some r, chosen⟩ :: mid ++ [last])).ref.sampleCinO = old ∨
      (run (State.step p) s (es ++ ⟨clkIn, some r, chosen⟩ :: mid ++ [last])).ref.sampleCinO = new) ↔
    (clkIn.isSome = true → Steady p old preset) := by
  simp only [sampling.sample]
  cases clkIn with
  -- the code stands still while it is sampled
  | none =>
      rw [encoded_snoc, Option.elim_none, List.append_nil, List.append_cons before] at recent
      have settled := (last_encoded recent).1
      refine iff_of_true (fun _ => .inr ?_) (fun none => by cases none)
      rw [State.found, settled, decode_encode]
  | some i =>
      rw [encoded_snoc, Option.elim_some, List.append_cons before] at recent
      obtain ⟨here, same⟩ := List.append_inj' recent rfl
      obtain ⟨now, -⟩ := Prod.mk.inj (List.singleton_inj.1 same)
      obtain ⟨gray, counted⟩ := last_encoded here
      rw [now] at counted
      simp only [State.found, InDomain.step, gray, now, Option.isSome_some, forall_const]
      rw [steady_iff, ← counted, ← decode_mixture_iff]

/-- A counter of six steps a second, and a sample in every other cycle of the reference clock. -/
def six : Generics := { gRefClockRate := 6, gInClockRate := 6, gSampleRate := 3 }

def powerUp : State 3 where
  ins := { ppsExtD0 := false, cntInBin := 0, cntInGray := 0 }
  ref :=
    { cntRefBin := 0, cntRefDiv := 0, refDivP := false, cntInGrayX := 0, cntInGrayXd := 0, sampleCinO := 0
      sampleCrefO := 0 }

def onlyIn : Event 3 := { clkIn := some {}, clkRef := none, chosen := 0 }

def onlyRef : Event 3 := { clkIn := none, clkRef := some {}, chosen := 0 }

/-- Both resets, and the counter up to the end of the second. -/
def toWrap : List (Event 3) :=
  [{ clkIn := some { rstNExt := false }, clkRef := some { rstNRef := false }, chosen := 0 }, onlyIn, onlyIn, onlyIn,
    onlyRef, onlyIn]

theorem sampling_wrap : Sampling six powerUp toWrap (some {}) {} [onlyRef] onlyRef :=
  ⟨rfl, rfl, fun _ => rfl⟩

theorem sample_recent_iff_wrap :
    (∀ chosen, (run (State.step six) powerUp
      (toWrap ++ ⟨some {}, some {}, chosen⟩ :: [onlyRef] ++ [onlyRef])).ref.sampleCinO
      = 5 ∨ (run (State.step six) powerUp
        (toWrap ++ ⟨some {}, some {}, chosen⟩ :: [onlyRef] ++ [onlyRef])).ref.sampleCinO
      = 0) ↔ ((some ({} : InEdge)).isSome = true → Steady six (5 : BitVec 3) false) :=
  have recent : encoded six powerUp (toWrap ++ [⟨some {}, some {}, 0⟩]) =
      [(0, true), (2, false), (3, false), (4, false)] ++ [(5, false), (0, false)] := rfl
  sample_recent_iff sampling_wrap recent

/-- Between the codes of 5 and of 0 the sample is 3. -/
theorem sample_torn : ¬ ∀ (p : Generics) (s : State 3) (es mid : List (Event 3)) (clkIn : Option InEdge) (r : RefEdge)
    (last : Event 3) (before : List (BitVec 3 × Bool)) (old new : BitVec 3) (preset preset' : Bool),
    Sampling p s es clkIn r mid last →
    encoded p s (es ++ [⟨clkIn, some r, 0⟩]) = before ++ [(old, preset), (new, preset')] → ∀ chosen,
      (run (State.step p) s (es ++ ⟨clkIn, some r, chosen⟩ :: mid ++ [last])).ref.sampleCinO = old ∨
      (run (State.step p) s (es ++ ⟨clkIn, some r, chosen⟩ :: mid ++ [last])).ref.sampleCinO = new := by
  intro claim
  have sampled := claim six powerUp toWrap [onlyRef] (some {})
    {} onlyRef [(0, true), (2, false), (3, false), (4, false)]
    5 0 false false sampling_wrap rfl 5
  rw [sampling_wrap.sample] at sampled
  have torn : (run (State.step six) powerUp toWrap).found six ⟨some {}, some {}, 5⟩ = encode 3 := rfl
  rw [torn, decode_encode] at sampled
  revert sampled
  decide

end WrCores.Softpll.Aligner
