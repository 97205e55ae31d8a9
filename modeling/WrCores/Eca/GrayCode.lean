import WrCores.Eca.WbEvent
import WrCores.Words.Crossing

/-!
f_eca_gray_encode and f_eca_gray_decode of eca_internals_pkg.vhd, and what goes through them: the time that eca.vhd
shows to the host and the event pointers of eca_wb_event.vhd. An edge of one clock that comes together with one of the
other finds each bit of a code old or new.
-/

namespace WrCores.Eca.GrayCode

open Clocked Words Words.Gray

variable {n : Nat}

def fEcaGrayEncode (x : BitVec n) : BitVec n := (x.concat false ^^^ x.cons false).extractLsb' 1 n

/-- Called with `step` 1. -/
def fEcaGrayDecode (x : BitVec n) (step : Nat) (positive : 0 < step) : BitVec n :=
  if n ≤ step then x
  else
    let z := (x.extractLsb' step (n - step)).setWidth n
    fEcaGrayDecode (x ^^^ z) (step + step) (Nat.add_pos_left positive step)
termination_by n - step

theorem fEcaGrayEncode_eq (x : BitVec n) : fEcaGrayEncode x = encode x := by
  apply BitVec.eq_of_getLsbD_eq
  intro i inside
  rw [fEcaGrayEncode, BitVec.getLsbD_extractLsb', encode, getLsbD_shiftXor, BitVec.getLsbD_xor, Nat.add_comm 1 i,
    BitVec.getLsbD_concat_succ, BitVec.getLsbD_cons]
  by_cases last : i + 1 = n
  · simp [inside, last]
  · simp [inside, last]

theorem fEcaGrayDecode_eq (x : BitVec n) {step : Nat} (positive : 0 < step) :
    fEcaGrayDecode x step positive = decode x step positive := by
  have next : x ^^^ (x.extractLsb' step (n - step)).setWidth n = shiftXor step x := by
    apply BitVec.eq_of_getLsbD_eq
    intro i inside
    rw [getLsbD_shiftXor, BitVec.getLsbD_xor, BitVec.getLsbD_setWidth, BitVec.getLsbD_extractLsb']
    by_cases far : i < n - step
    · simp [inside, far]
    · simp [far, BitVec.getLsbD_of_ge x (step + i) (by omega)]
  rw [fEcaGrayDecode, decode]
  split
  · rfl
  · change fEcaGrayDecode (x ^^^ (x.extractLsb' step (n - step)).setWidth n) (step + step) _ = _
    rw [next]
    exact fEcaGrayDecode_eq (shiftXor step x) (Nat.add_pos_left positive step)
termination_by n - step

/-! ### The time of the host -/

/-- The registers of the processes `time` and `bulk`. -/
structure HostTime where
  raTime : BitVec 64
  raTimeGray : BitVec 64
  rcTimeGray0 : BitVec 64
  rcTimeGray1 : BitVec 64
  rcTime : BitVec 64
  deriving DecidableEq, Repr

/-- An edge of `a_clk_i`, with `a_time_i`, or of `c_clk_i`, or of both. -/
structure HostIn where
  aTimeI : Option (BitVec 64)
  cClk : Bool
  chosen : BitVec 64
  deriving DecidableEq, Repr

namespace HostTime

def time (s : HostTime) (aTimeI : BitVec 64) : HostTime :=
  { s with
    raTime := aTimeI
    raTimeGray := fEcaGrayEncode s.raTime }

def step (s : HostTime) (i : HostIn) : HostTime :=
  let next := i.aTimeI.elim s s.time
  if i.cClk then
    -- `bulk`; only `ra_time_gray` comes from the other clock
    { next with
      rcTimeGray0 := mixture i.chosen s.raTimeGray next.raTimeGray
      rcTimeGray1 := s.rcTimeGray0
      rcTime := fEcaGrayDecode s.rcTimeGray1 1 Nat.one_pos }
  else next

def crosses : Crosses HostTime.step 64 where
  receives := HostIn.cClk
  chosen := HostIn.chosen
  gray := raTimeGray
  first := rcTimeGray0
  second := rcTimeGray1
  shown := rcTime
  samples s i receives := by
    rw [HostTime.step, if_pos receives]
    exact ⟨rfl, rfl, fEcaGrayDecode_eq s.rcTimeGray1 Nat.one_pos⟩
  holds s i quiet := by
    rw [HostTime.step, if_neg (Bool.not_eq_true _ ▸ quiet)]
    cases i.aTimeI <;> exact ⟨rfl, rfl, rfl⟩

end HostTime

/-- The values of `a_time_i` that were taken. -/
def aTimes (inputs : List HostIn) : List (BitVec 64) := inputs.filterMap HostIn.aTimeI

theorem aTimes_snoc (inputs : List HostIn) (i : HostIn) : aTimes (inputs ++ [i]) = aTimes inputs ++ i.aTimeI.toList := by
  rw [aTimes, List.filterMap_append]
  cases edge : i.aTimeI <;> simp [aTimes, edge]

theorem time_step (s : HostTime) (i : HostIn) :
    (s.step i).raTime = i.aTimeI.getD s.raTime ∧
      (s.step i).raTimeGray = if i.aTimeI.isSome then encode s.raTime else s.raTimeGray := by
  rw [HostTime.step]
  cases i.aTimeI with
  | none => split <;> exact ⟨rfl, rfl⟩
  | some t => split <;> exact ⟨rfl, fEcaGrayEncode_eq s.raTime⟩

variable {s : HostTime} {inputs : List HostIn} {earlier : List (BitVec 64)} {old new : BitVec 64}

theorem last_time (times : aTimes inputs = earlier ++ [new]) : (run HostTime.step s inputs).raTime = new := by
  induction inputs using List.reverseRecOn with
  | nil => simp [aTimes] at times
  | append_singleton inputs i ih =>
      rw [run_append, run_cons, run_nil, (time_step _ i).1]
      rw [aTimes_snoc] at times
      cases edge : i.aTimeI with
      | none => exact ih (by simpa [edge] using times)
      | some t =>
          rw [edge, Option.toList_some] at times
          exact List.singleton_inj.1 (List.append_inj' times rfl).2

/-- The code in `ra_time_gray` is that of the time before the last one. -/
theorem last_code (times : aTimes inputs = earlier ++ [old, new]) :
    (run HostTime.step s inputs).raTimeGray = encode old := by
  induction inputs using List.reverseRecOn with
  | nil => simp [aTimes] at times
  | append_singleton inputs i ih =>
      rw [run_append, run_cons, run_nil, (time_step _ i).2]
      rw [aTimes_snoc] at times
      cases edge : i.aTimeI with
      | none => exact ih (by simpa [edge] using times)
      | some t =>
          rw [edge, Option.toList_some, List.append_cons earlier] at times
          rw [Option.isSome_some, if_pos rfl, last_time (List.append_inj' times rfl).1]

/-- Above its last three bits the time that is shown is one of the two last ones before its sample. -/
theorem time_shown {before behind : List HostIn} {i : HostIn} (receives : i.cClk = true)
    (two : behind.countP (·.cClk) = 2) (times : aTimes before = earlier ++ [old, old + 8]) :
    let rcTime := (run HostTime.step s (before ++ i :: behind)).rcTime
    rcTime >>> 3 = old >>> 3 ∨ rcTime >>> 3 = (old + 8) >>> 3 := by
  have code : (run HostTime.step s before).raTimeGray = encode old := last_code times
  have value : (run HostTime.step s before).raTime = old + 8 :=
    last_time (times.trans (List.append_cons earlier old [old + 8]))
  have next : (run HostTime.step s (before ++ [i])).raTimeGray = encode (if i.aTimeI.isSome then old + 8 else old) := by
    rw [run_append, run_cons, run_nil, (time_step _ i).2, code, value, apply_ite encode]
  have told := HostTime.crosses.shown_step (k := 3) receives two code next
  cases edge : i.aTimeI.isSome with
  | true =>
      rw [edge, if_pos rfl] at told
      exact told (.inr rfl)
  | false =>
      rw [edge, if_neg Bool.false_ne_true] at told
      exact .inl ((told (.inl rfl)).elim id id)

/-! ### The pointers of the event stream -/

/-- Edges of both clocks, and the bits that are found new where they come together. -/
structure PointerIn where
  edges : EventIn
  chosenReady : BitVec 3
  chosenSent : BitVec 3
  deriving DecidableEq, Repr

def PointerIn.wEdge (i : PointerIn) : Bool := i.edges.wEdge.isSome

def PointerIn.eEdge (i : PointerIn) : Bool := i.edges.eEdge.isSome

/-- `WbEvent.step`, with the synchronisers of the codes. -/
def stepMixed (s : WbEvent) (i : PointerIn) : WbEvent :=
  let next := s.step i.edges
  { next with
    re1ReadyGray := if i.eEdge then mixture i.chosenReady s.rwReadyGray next.rwReadyGray else s.re1ReadyGray
    rw1SentGray := if i.wEdge then mixture i.chosenSent s.reSentGray next.reSentGray else s.rw1SentGray }

/-- The coders of three bits are those of the package. -/
theorem three_bits (x : BitVec 3) :
    Eca.fEcaGrayEncode x = fEcaGrayEncode x ∧ Eca.fEcaGrayDecode x = fEcaGrayDecode x 1 Nat.one_pos := by
  rw [fEcaGrayEncode_eq, fEcaGrayDecode_eq, decode, if_neg (by decide), decode, if_neg (by decide), decode,
    if_pos (by decide)]
  exact ⟨rfl, rfl⟩

theorem decode_three (x : BitVec 3) : Eca.fEcaGrayDecode x = decode x 1 Nat.one_pos :=
  (three_bits x).2.trans (fEcaGrayDecode_eq x Nat.one_pos)

theorem writeEdge_rw1 (s : WbEvent) (b : WbIn) : (s.writeEdge b).rw1SentGray = s.reSentGray := by
  simp only [WbEvent.writeEdge]
  repeat' split
  all_goals rfl

/-- Where every bit is found old, both sides see each other as they were. -/
theorem stepMixed_old (s : WbEvent) (i : EventIn) : stepMixed s ⟨i, 0, 0⟩ = s.step i := by
  have ready : (s.step i).re1ReadyGray = if i.eEdge.isSome then s.rwReadyGray else s.re1ReadyGray := by
    simp only [WbEvent.step]
    cases i.eEdge with
    | none => rfl
    | some e => exact s.readEdge_re1 e
  have sent : (s.step i).rw1SentGray = if i.wEdge.isSome then s.reSentGray else s.rw1SentGray := by
    simp only [WbEvent.step]
    cases i.wEdge with
    | none => rfl
    | some b => exact writeEdge_rw1 s b
  simp only [stepMixed, PointerIn.eEdge, PointerIn.wEdge, mixture_zero]
  rw [← ready, ← sent]

theorem writeEdge_sent (s : WbEvent) (b : WbIn) :
    (s.writeEdge b).rw0SentGray = s.rw1SentGray ∧ (s.writeEdge b).rwSent = decode s.rw0SentGray 1 Nat.one_pos := by
  rw [← decode_three]
  simp only [WbEvent.writeEdge]
  repeat' split
  all_goals exact ⟨rfl, rfl⟩

def readyCrosses : Crosses stepMixed 3 where
  receives := PointerIn.eEdge
  chosen := PointerIn.chosenReady
  gray := WbEvent.rwReadyGray
  first := WbEvent.re1ReadyGray
  second := WbEvent.re0ReadyGray
  shown := WbEvent.reReady
  samples s i receives := by
    obtain ⟨e, edge⟩ := Option.isSome_iff_exists.1 receives
    have read : (i.edges.eEdge.map s.readEdge).getD s = s.readEdge e := by rw [edge]; rfl
    refine ⟨if_pos receives, ?_, ?_⟩
    · exact (congrArg WbEvent.re0ReadyGray read).trans (s.readEdge_re0 e)
    · exact (congrArg WbEvent.reReady read).trans ((s.readEdge_ready e).trans (decode_three _))
  holds s i quiet := by
    have none : i.edges.eEdge = none := Option.not_isSome_iff_eq_none.1 (Bool.not_eq_true _ ▸ quiet)
    have still : (i.edges.eEdge.map s.readEdge).getD s = s := by rw [none]; rfl
    have second := congrArg WbEvent.re0ReadyGray still
    have shown := congrArg WbEvent.reReady still
    exact ⟨if_neg (Bool.not_eq_true _ ▸ quiet), second, shown⟩

def sentCrosses : Crosses stepMixed 3 where
  receives := PointerIn.wEdge
  chosen := PointerIn.chosenSent
  gray := WbEvent.reSentGray
  first := WbEvent.rw1SentGray
  second := WbEvent.rw0SentGray
  shown := WbEvent.rwSent
  samples s i receives := by
    obtain ⟨b, edge⟩ := Option.isSome_iff_exists.1 receives
    have written : (i.edges.wEdge.map s.writeEdge).getD s = s.writeEdge b := by rw [edge]; rfl
    refine ⟨if_pos receives, ?_, ?_⟩
    · exact (congrArg WbEvent.rw0SentGray written).trans (writeEdge_sent s b).1
    · exact (congrArg WbEvent.rwSent written).trans (writeEdge_sent s b).2
  holds s i quiet := by
    have none : i.edges.wEdge = none := Option.not_isSome_iff_eq_none.1 (Bool.not_eq_true _ ▸ quiet)
    have still : (i.edges.wEdge.map s.writeEdge).getD s = s := by rw [none]; rfl
    have second := congrArg WbEvent.rw0SentGray still
    have shown := congrArg WbEvent.rwSent still
    exact ⟨if_neg (Bool.not_eq_true _ ▸ quiet), second, shown⟩

/-- A pointer that counts edges of its clock, some of them, beside its code. -/
structure Counts (ticks : PointerIn → Bool) (pointer gray : WbEvent → BitVec 3) : Prop where
  codes : ∀ s i, ticks i = true → gray (stepMixed s i) = encode (pointer s) ∧
    (pointer (stepMixed s i) = pointer s ∨ pointer (stepMixed s i) = pointer s + 1)
  rests : ∀ s i, ticks i = false → gray (stepMixed s i) = gray s ∧ pointer (stepMixed s i) = pointer s

/-- The value of the pointer that was coded last, and zero before the first one. -/
def lastCoded (ticks : PointerIn → Bool) (pointer : WbEvent → BitVec 3) (s : WbEvent) (inputs : List PointerIn) :
    BitVec 3 :=
  (collect stepMixed (fun s i => if ticks i then [pointer s] else []) s inputs).getLastD 0

section Counts

variable {ticks : PointerIn → Bool} {pointer gray : WbEvent → BitVec 3} {s : WbEvent}

theorem lastCoded_snoc (inputs : List PointerIn) (i : PointerIn) : lastCoded ticks pointer s (inputs ++ [i]) =
    if ticks i then pointer (run stepMixed s inputs) else lastCoded ticks pointer s inputs := by
  rw [lastCoded, collect_append, collect_cons, collect_nil]
  split
  · simp
  · simp [lastCoded]

theorem Counts.coded (counts : Counts ticks pointer gray) (zero : pointer s = 0 ∧ gray s = 0)
    (inputs : List PointerIn) :
    let last := lastCoded ticks pointer s inputs
    gray (run stepMixed s inputs) = encode last ∧
      (pointer (run stepMixed s inputs) = last ∨ pointer (run stepMixed s inputs) = last + 1) := by
  induction inputs using List.reverseRecOn with
  | nil => exact ⟨zero.2.trans encode_zero.symm, .inl zero.1⟩
  | append_singleton inputs i ih =>
      intro last
      have now : last = _ := lastCoded_snoc inputs i
      rw [run_append, run_cons, run_nil, now]
      cases tick : ticks i with
      | true => exact counts.codes _ i tick
      | false =>
          obtain ⟨code, value⟩ := counts.rests (run stepMixed s inputs) i tick
          rw [code, value]
          exact ih

theorem Counts.steps (counts : Counts ticks pointer gray) (zero : pointer s = 0 ∧ gray s = 0)
    (inputs : List PointerIn) (i : PointerIn) :
    lastCoded ticks pointer s (inputs ++ [i]) = lastCoded ticks pointer s inputs ∨
      lastCoded ticks pointer s (inputs ++ [i]) = lastCoded ticks pointer s inputs + 1 := by
  rw [lastCoded_snoc]
  split
  · exact (counts.coded zero inputs).2
  · exact .inl rfl

theorem Counts.shown {c : Crosses stepMixed 3} (counts : Counts ticks pointer c.gray)
    (zero : pointer s = 0 ∧ c.gray s = 0) {before behind : List PointerIn} {i : PointerIn}
    (receives : c.receives i = true) (two : behind.countP c.receives = 2) :
    let seen := c.shown (run stepMixed s (before ++ i :: behind))
    seen = lastCoded ticks pointer s before ∨ seen = lastCoded ticks pointer s (before ++ [i]) := by
  have told := c.shown_step (k := 0) receives two (counts.coded zero before).1 (counts.coded zero (before ++ [i])).1
    (counts.steps zero before i)
  simpa only [BitVec.ushiftRight_zero] using told

end Counts

theorem ready_counts : Counts PointerIn.wEdge WbEvent.rwReady WbEvent.rwReadyGray where
  codes s i ticks := by
    obtain ⟨b, edge⟩ := Option.isSome_iff_exists.1 ticks
    have written : (i.edges.wEdge.map s.writeEdge).getD s = s.writeEdge b := by rw [edge]; rfl
    have code := (congrArg WbEvent.rwReadyGray written).trans (s.writeEdge_readyGray b)
    have pointer := congrArg WbEvent.rwReady written
    refine ⟨code, ?_⟩
    change ((i.edges.wEdge.map s.writeEdge).getD s).rwReady = _ ∨ ((i.edges.wEdge.map s.writeEdge).getD s).rwReady = _
    rw [pointer, WbEvent.writeEdge]
    repeat' split
    all_goals first | exact .inl rfl | exact .inr rfl
  rests s i quiet := by
    have none : i.edges.wEdge = none := Option.not_isSome_iff_eq_none.1 (Bool.not_eq_true _ ▸ quiet)
    have still : (i.edges.wEdge.map s.writeEdge).getD s = s := by rw [none]; rfl
    have code := congrArg WbEvent.rwReadyGray still
    have pointer := congrArg WbEvent.rwReady still
    exact ⟨code, pointer⟩

theorem sent_counts : Counts PointerIn.eEdge WbEvent.reSent WbEvent.reSentGray where
  codes s i ticks := by
    obtain ⟨e, edge⟩ := Option.isSome_iff_exists.1 ticks
    have read : (i.edges.eEdge.map s.readEdge).getD s = s.readEdge e := by rw [edge]; rfl
    change ((i.edges.eEdge.map s.readEdge).getD s).reSentGray = _ ∧
      (((i.edges.eEdge.map s.readEdge).getD s).reSent = _ ∨ ((i.edges.eEdge.map s.readEdge).getD s).reSent = _)
    rw [read, WbEvent.readEdge]
    split
    all_goals first | exact ⟨rfl, .inl rfl⟩ | exact ⟨rfl, .inr rfl⟩
  rests s i quiet := by
    have none : i.edges.eEdge = none := Option.not_isSome_iff_eq_none.1 (Bool.not_eq_true _ ▸ quiet)
    have still : (i.edges.eEdge.map s.readEdge).getD s = s := by rw [none]; rfl
    have code := congrArg WbEvent.reSentGray still
    have pointer := congrArg WbEvent.reSent still
    exact ⟨code, pointer⟩

/-! ### Correct to one step -/

theorem upper_of_shift {k : Nat} {x y : BitVec n} (same : x >>> k = y >>> k) (len : Nat) :
    x.extractLsb' k len = y.extractLsb' k len :=
  congrArg (fun z : BitVec n => BitVec.ofNat len z.toNat) same

theorem near_of_shift {k : Nat} {x y : BitVec n} (same : x >>> k = y >>> k) :
    |(x.toNat : Int) - y.toNat| < 2 ^ k := by
  have steps := congrArg BitVec.toNat same
  rw [BitVec.toNat_ushiftRight, BitVec.toNat_ushiftRight, Nat.shiftRight_eq_div_pow, Nat.shiftRight_eq_div_pow] at steps
  have left := Nat.div_add_mod x.toNat (2 ^ k)
  have right := Nat.div_add_mod y.toNat (2 ^ k)
  have small := Nat.mod_lt x.toNat (Nat.two_pow_pos k)
  have small' := Nat.mod_lt y.toNat (Nat.two_pow_pos k)
  rw [steps] at left
  rw [abs_lt, show (2 : Int) ^ k = (2 ^ k : Nat) by norm_cast]
  generalize 2 ^ k * (y.toNat / 2 ^ k) = whole at left right
  omega

/-- Every code read back, and every number that crosses as its code shown correct to one step. -/
theorem gray_crossings :
    (∀ (n : Nat) (x : BitVec n), fEcaGrayDecode (fEcaGrayEncode x) 1 Nat.one_pos = x ∧
      fEcaGrayEncode (fEcaGrayDecode x 1 Nat.one_pos) = x) ∧
    (∀ (n k : Nat) (x chosen : BitVec n),
      let m := mixture chosen (fEcaGrayEncode x) (fEcaGrayEncode (x + BitVec.twoPow n k))
      let seen := fEcaGrayDecode m 1 Nat.one_pos
      seen.extractLsb' k (n - k) = x.extractLsb' k (n - k) ∨
        seen.extractLsb' k (n - k) = (x + BitVec.twoPow n k).extractLsb' k (n - k)) ∧
    (∀ (s : HostTime) (before behind : List HostIn) (i : HostIn) (earlier : List (BitVec 64)) (old : BitVec 64),
      i.cClk = true → behind.countP (·.cClk) = 2 → aTimes before = earlier ++ [old, old + 8] →
      let rcTime := (run HostTime.step s (before ++ i :: behind)).rcTime
      ∃ t, (t = old ∨ t = old + 8) ∧ rcTime.extractLsb' 3 61 = t.extractLsb' 3 61 ∧
        |(rcTime.toNat : Int) - t.toNat| < 8) ∧
    (∀ (memory : BitVec 5 → BitVec 32) (before behind : List PointerIn) (i : PointerIn),
      let coded := lastCoded PointerIn.wEdge WbEvent.rwReady { memory }
      let reReady := (run stepMixed { memory } (before ++ i :: behind)).reReady
      i.eEdge = true → behind.countP PointerIn.eEdge = 2 →
      (coded (before ++ [i]) = coded before ∨ coded (before ++ [i]) = coded before + 1) ∧
        (reReady = coded before ∨ reReady = coded (before ++ [i]))) ∧
    (∀ (memory : BitVec 5 → BitVec 32) (before behind : List PointerIn) (i : PointerIn),
      let coded := lastCoded PointerIn.eEdge WbEvent.reSent { memory }
      let rwSent := (run stepMixed { memory } (before ++ i :: behind)).rwSent
      i.wEdge = true → behind.countP PointerIn.wEdge = 2 →
      (coded (before ++ [i]) = coded before ∨ coded (before ++ [i]) = coded before + 1) ∧
        (rwSent = coded before ∨ rwSent = coded (before ++ [i]))) := by
  refine ⟨fun n x => ?_, fun n k x chosen => ?_, fun s before behind i earlier old receives two times => ?_, ?_, ?_⟩
  · rw [fEcaGrayEncode_eq, fEcaGrayEncode_eq, fEcaGrayDecode_eq, fEcaGrayDecode_eq]
    exact ⟨decode_encode x, encode_decode x⟩
  · intro m seen
    have told := decode_mixture_step x k chosen
    simp only [← fEcaGrayEncode_eq, ← fEcaGrayDecode_eq] at told
    exact told.imp (upper_of_shift · (n - k)) (upper_of_shift · (n - k))
  · intro rcTime
    rcases time_shown receives two times with same | same
    · exact ⟨old, .inl rfl, upper_of_shift same 61, near_of_shift same⟩
    · exact ⟨old + 8, .inr rfl, upper_of_shift same 61, near_of_shift same⟩
  · intro memory before behind i coded reReady receives two
    exact ⟨ready_counts.steps ⟨rfl, rfl⟩ before i, ready_counts.shown (c := readyCrosses) ⟨rfl, rfl⟩ receives two⟩
  · intro memory before behind i coded rwSent receives two
    exact ⟨sent_counts.steps ⟨rfl, rfl⟩ before i, sent_counts.shown (c := sentCrosses) ⟨rfl, rfl⟩ receives two⟩

/-- The two last times are 56 and 64, and bit 2 alone is found new: the host reads 63. -/
theorem gray_crossings_mixed :
    let before : List HostIn := [⟨some 56, false, 0⟩, ⟨some 64, false, 0⟩]
    let behind : List HostIn := [⟨some 80, true, 0⟩, ⟨none, true, 0⟩]
    let rcTime := (run HostTime.step ⟨0, 0, 0, 0, 0⟩ (before ++ ⟨some 72, true, 4⟩ :: behind)).rcTime
    ∃ t : BitVec 64, (t = 56 ∨ t = 56 + 8) ∧ rcTime.extractLsb' 3 61 = t.extractLsb' 3 61 ∧
      |(rcTime.toNat : Int) - t.toNat| < 8 :=
  gray_crossings.2.2.1 ⟨0, 0, 0, 0, 0⟩ [⟨some 56, false, 0⟩, ⟨some 64, false, 0⟩]
    [⟨some 80, true, 0⟩, ⟨none, true, 0⟩] ⟨some 72, true, 4⟩ [] 56 rfl rfl rfl

end WrCores.Eca.GrayCode
