import Mathlib
import WrCores.Endpoint.Pkg

/-!
ep_rx_early_address_match.vhd: the pause frames of 802.3 and of 802.1Q, which have a quanta for each priority. `words`
are what has come with `dvalid` behind the start of the frame, each with the registers of its cycle. The synchronisers
to the system clock are left out.
-/

namespace WrCores.Endpoint

open Clocked

structure MatchRegs where
  fcrRxpause : Bool
  fcrRxpause8021q : Bool
  rfcrAHp : Bool
  rfcrHpap : BitVec 8
  deriving DecidableEq

structure MatchIn where
  rstN : Bool := true
  fab : InternalFabric
  regs : MatchRegs
  deriving DecidableEq

structure EarlyMatch where
  hdrOffset : BitVec 17
  pauseMatchInt : Fin 8 → Bool
  matchPauseQuanta : BitVec 16
  matchIsPause : Bool
  pausePrioMask : BitVec 8
  matchPauseReq : Bool
  isPerprioPause : Bool
  isTagged : Bool
  matchIsHp : Bool
  doneInt : Bool

namespace EarlyMatch

def pause8023 : Fin 8 → Bool := ![true, true, true, true, true, false, false, false]

def pause8021q : Fin 8 → Bool := ![true, true, true, true, false, true, false, false]

def withBit (m : Fin 8 → Bool) (k : Nat) (bit : Bool) : Fin 8 → Bool := fun j => if j.val = k then bit else m j

@[simp] theorem withBit_apply (m : Fin 8 → Bool) (k : Nat) (bit : Bool) (j : Fin 8) :
    withBit m k bit j = if j.val = k then bit else m j := rfl

/-- The comparisons of the header. -/
def compare (s : EarlyMatch) (data : BitVec 16) : Fin 8 → Bool :=
  let m := s.pauseMatchInt
  let m := if s.hdrOffset.getLsbD 0 then withBit m 0 (data == 0x0180) else m
  let m := if s.hdrOffset.getLsbD 1 then withBit m 1 (data == 0xc200) else m
  let m := if s.hdrOffset.getLsbD 2 then withBit m 2 (data == 0x0001) else m
  let m := if s.hdrOffset.getLsbD 6 then withBit m 3 (data == 0x8808) else m
  if s.hdrOffset.getLsbD 7 then withBit (withBit m 4 (data == 0x0001)) 5 (data == 0x0101) else m

/-- The two branches at the word behind the opcode. -/
def plainHere (s : EarlyMatch) : Bool := s.hdrOffset.getLsbD 8 && decide (s.pauseMatchInt = pause8023)

def prioHere (s : EarlyMatch) : Bool :=
  s.hdrOffset.getLsbD 8 && (!decide (s.pauseMatchInt = pause8023) && decide (s.pauseMatchInt = pause8021q))

/-- `p_match_pause` with `dvalid`. -/
def matchPause (s : EarlyMatch) (data : BitVec 16) (regs : MatchRegs) : EarlyMatch :=
  let plain := s.plainHere
  let prio := s.prioHere
  let quanta := if plain && regs.fcrRxpause then data else s.matchPauseQuanta
  { s with
    pauseMatchInt := s.compare data
    matchIsPause := plain || prio || s.matchIsPause
    isPerprioPause := (prio && regs.fcrRxpause8021q) || s.isPerprioPause
    pausePrioMask :=
      if plain && regs.fcrRxpause then BitVec.allOnes 8
      else if prio && regs.fcrRxpause8021q then data.extractLsb' 0 8 else s.pausePrioMask
    matchPauseReq :=
      (plain && regs.fcrRxpause) || (s.hdrOffset.getLsbD 16 && s.isPerprioPause) || s.matchPauseReq
    matchPauseQuanta :=
      if s.isPerprioPause && s.hdrOffset.extractLsb' 9 8 &&& s.pausePrioMask != 0 && s.matchPauseQuanta < data then data
      else quanta }

/-- `p_match_hp`: the word that it takes for the ethertype is the last of the source address. -/
def matchHp (s : EarlyMatch) (data : BitVec 16) (regs : MatchRegs) : EarlyMatch :=
  { s with
    isTagged := if s.hdrOffset.getLsbD 5 then data == 0x8100 else s.isTagged
    matchIsHp :=
      if s.hdrOffset.getLsbD 7 && s.isTagged then
        regs.rfcrAHp && regs.rfcrHpap.getLsbD (data.extractLsb' 13 3).toNat && s.isTagged
      else s.matchIsHp }

def clear : EarlyMatch := ⟨1, fun _ => false, 0, false, 0, false, false, false, false, false⟩

def step (s : EarlyMatch) (i : MatchIn) : EarlyMatch :=
  if !i.rstN || i.fab.sof then clear
  else
    let pause := if i.fab.dvalid then s.matchPause i.fab.data i.regs else s
    let hp := if i.fab.dvalid then s.matchHp i.fab.data i.regs else s
    { pause with
      hdrOffset := if i.fab.dvalid then s.hdrOffset <<< 1 else s.hdrOffset
      isTagged := hp.isTagged
      matchIsHp := hp.matchIsHp
      doneInt := s.hdrOffset.getLsbD 8 || i.fab.error || s.doneInt }

def matchIsHpO (gEarlyHpDetection : Bool) (s : EarlyMatch) : Bool := gEarlyHpDetection && s.matchIsHp

/-! ### The words of a frame -/

abbrev Word := BitVec 16 × MatchRegs

def words (is : List MatchIn) : List Word := is.flatMap fun i => if i.fab.dvalid then [(i.fab.data, i.regs)] else []

variable (ws : List Word)

def isAt (k : Nat) (data : BitVec 16) : Bool := ws[k]?.any fun w => w.1 == data

/-- A register at the word behind the opcode. -/
def enabled (reg : MatchRegs → Bool) : Bool := ws[8]?.any fun w => reg w.2

/-- The address 01:80:C2:00:00:01, the ethertype 8808 and an opcode, with a word behind it. -/
def pauseFrame (opcode : BitVec 16) : Bool :=
  isAt ws 0 0x0180 && isAt ws 1 0xc200 && isAt ws 2 0x0001 && isAt ws 6 0x8808 && isAt ws 7 opcode &&
    decide (8 < ws.length)

/-- A pause frame that the endpoint obeys. -/
def plainPause : Bool := pauseFrame ws 0x0001 && enabled ws (·.fcrRxpause)

def prioPause : Bool := pauseFrame ws 0x0101 && enabled ws (·.fcrRxpause8021q)

def mask : BitVec 8 :=
  if plainPause ws then BitVec.allOnes 8
  else if prioPause ws then (ws[8]?.map fun w => w.1.extractLsb' 0 8).getD 0 else 0

/-- A word that is a quanta to be obeyed. -/
def Quanta (k : Nat) : Prop :=
  (k = 8 ∧ plainPause ws = true) ∨ (9 ≤ k ∧ k ≤ 16 ∧ prioPause ws = true ∧ (mask ws).getLsbD (k - 9) = true)

def quantas : Set (BitVec 16) := {q | q = 0 ∨ ∃ k w, ws[k]? = some w ∧ w.1 = q ∧ Quanta ws k}

theorem getElem?_snoc (w : Word) (k : Nat) : (ws ++ [w])[k]? = if ws.length = k then some w else ws[k]? := by
  rw [List.getElem?_append]
  split
  · rw [if_neg (by omega)]
  · split
    next here => simp [here]
    next far =>
      rw [List.getElem?_eq_none (by rw [List.length_singleton]; omega), List.getElem?_eq_none (by omega)]

theorem isAt_snoc (w : Word) (k : Nat) (data : BitVec 16) :
    isAt (ws ++ [w]) k data = if ws.length = k then w.1 == data else isAt ws k data := by
  rw [isAt, getElem?_snoc]
  split <;> rfl

theorem enabled_snoc (w : Word) (reg : MatchRegs → Bool) :
    enabled (ws ++ [w]) reg = if ws.length = 8 then reg w.2 else enabled ws reg := by
  rw [enabled, getElem?_snoc]
  split <;> rfl

/-- The header up to the opcode. -/
def header (opcode : BitVec 16) : Bool :=
  isAt ws 0 0x0180 && isAt ws 1 0xc200 && isAt ws 2 0x0001 && isAt ws 6 0x8808 && isAt ws 7 opcode

theorem pauseFrame_snoc (w : Word) (opcode : BitVec 16) :
    pauseFrame (ws ++ [w]) opcode = if ws.length = 8 then header ws opcode else pauseFrame ws opcode := by
  simp only [pauseFrame, header, isAt_snoc, List.length_append, List.length_singleton]
  by_cases here : ws.length = 8
  · simp [here]
  · rw [if_neg here]
    rcases Nat.lt_or_ge 8 ws.length with behind | before
    · rw [if_neg (by omega), if_neg (by omega), if_neg (by omega), if_neg (by omega), if_neg (by omega)]
      simp [behind, Nat.lt_succ_of_lt behind]
    · rw [decide_eq_false (show ¬ 8 < ws.length + 1 by omega), decide_eq_false (show ¬ 8 < ws.length by omega),
        Bool.and_false, Bool.and_false]

theorem pauseFrame_short (short : ws.length ≤ 8) (opcode : BitVec 16) : pauseFrame ws opcode = false := by
  rw [pauseFrame, decide_eq_false (by omega), Bool.and_false]

theorem opcode_apart : (isAt ws 7 0x0001 && isAt ws 7 0x0101) = false := by
  rw [isAt, isAt]
  cases ws[7]? with
  | none => rfl
  | some w =>
      have apart : w.1 = 1#16 → ¬ w.1 = 257#16 := fun plain => by
        rw [plain]
        decide
      simpa using apart

theorem compare_header : ∀ a b c d e f : Bool, (e && f) = false →
    decide (![a, b, c, d, e, f, false, false] = pause8023) = (a && b && c && d && e) ∧
      (!(a && b && c && d && e) && decide (![a, b, c, d, e, f, false, false] = pause8021q)) =
        (a && b && c && d && f) := by decide

/-- What the registers show of the words of the frame so far. -/
structure Seen (s : EarlyMatch) (ws : List Word) : Prop where
  offset : ∀ k, s.hdrOffset.getLsbD k = (decide (k < 17) && decide (ws.length = k))
  matched : s.pauseMatchInt = ![isAt ws 0 0x0180, isAt ws 1 0xc200, isAt ws 2 0x0001, isAt ws 6 0x8808,
    isAt ws 7 0x0001, isAt ws 7 0x0101, false, false]
  isPause : s.matchIsPause = (pauseFrame ws 0x0001 || pauseFrame ws 0x0101)
  perprio : s.isPerprioPause = prioPause ws
  mask : s.pausePrioMask = mask ws
  req : s.matchPauseReq = (plainPause ws || (prioPause ws && decide (16 < ws.length)))
  quanta : IsGreatest (quantas ws) s.matchPauseQuanta
  tagged : s.isTagged = isAt ws 5 0x8100
  hp : s.matchIsHp = (isAt ws 5 0x8100 && ws[7]?.any fun w =>
    w.2.rfcrAHp && w.2.rfcrHpap.getLsbD (w.1.extractLsb' 13 3).toNat)

theorem seen_clear : Seen clear [] where
  offset k := by
    rw [show clear.hdrOffset = 1#17 from rfl, BitVec.getLsbD_one]
    cases k <;> simp
  matched := by decide
  isPause := rfl
  perprio := rfl
  mask := rfl
  req := rfl
  quanta := ⟨.inl rfl, by rintro q (rfl | ⟨k, w, none, -⟩); exacts [BitVec.le_refl _, absurd none (by simp)]⟩
  tagged := rfl
  hp := rfl

variable {s : EarlyMatch} {ws : List Word}

theorem Seen.compared (seen : Seen s ws) : decide (s.pauseMatchInt = pause8023) = header ws 0x0001 ∧
    (!header ws 0x0001 && decide (s.pauseMatchInt = pause8021q)) = header ws 0x0101 := by
  rw [seen.matched]
  exact compare_header _ _ _ _ _ _ (opcode_apart ws)

theorem Seen.kinds (seen : Seen s ws) : s.plainHere = (decide (ws.length = 8) && header ws 0x0001) ∧
    s.prioHere = (decide (ws.length = 8) && header ws 0x0101) := by
  obtain ⟨plain, prio⟩ := seen.compared
  rw [plainHere, prioHere, plain, prio, seen.offset 8]
  exact ⟨rfl, rfl⟩

theorem Seen.matched_snoc (seen : Seen s ws) (w : Word) : s.compare w.1 = ![isAt (ws ++ [w]) 0 0x0180,
    isAt (ws ++ [w]) 1 0xc200, isAt (ws ++ [w]) 2 0x0001, isAt (ws ++ [w]) 6 0x8808, isAt (ws ++ [w]) 7 0x0001,
    isAt (ws ++ [w]) 7 0x0101, false, false] := by
  simp only [compare, seen.offset, seen.matched, isAt_snoc]
  funext j
  by_cases h0 : ws.length = 0
  · fin_cases j <;> simp [h0]
  by_cases h1 : ws.length = 1
  · fin_cases j <;> simp [h1]
  by_cases h2 : ws.length = 2
  · fin_cases j <;> simp [h2]
  by_cases h6 : ws.length = 6
  · fin_cases j <;> simp [h6]
  by_cases h7 : ws.length = 7
  · fin_cases j <;> simp [h7]
  · simp [h0, h1, h2, h6, h7]

/-! ### One word more -/

section Snoc

variable (ws) (w : Word)

theorem plainPause_snoc : plainPause (ws ++ [w]) =
    if ws.length = 8 then header ws 0x0001 && w.2.fcrRxpause else plainPause ws := by
  rw [plainPause, pauseFrame_snoc, enabled_snoc]
  split <;> rfl

theorem prioPause_snoc : prioPause (ws ++ [w]) =
    if ws.length = 8 then header ws 0x0101 && w.2.fcrRxpause8021q else prioPause ws := by
  rw [prioPause, pauseFrame_snoc, enabled_snoc]
  split <;> rfl

theorem plainPause_short (short : ws.length ≤ 8) : plainPause ws = false := by
  rw [plainPause, pauseFrame_short ws short, Bool.false_and]

theorem prioPause_short (short : ws.length ≤ 8) : prioPause ws = false := by
  rw [prioPause, pauseFrame_short ws short, Bool.false_and]

theorem mask_short (short : ws.length ≤ 8) : mask ws = 0 := by
  rw [mask, plainPause_short ws short, prioPause_short ws short]
  rfl

theorem mask_snoc : mask (ws ++ [w]) =
    if ws.length = 8 then
      if header ws 0x0001 && w.2.fcrRxpause then BitVec.allOnes 8
      else if header ws 0x0101 && w.2.fcrRxpause8021q then w.1.extractLsb' 0 8 else 0
    else mask ws := by
  rw [mask, plainPause_snoc, prioPause_snoc, getElem?_snoc]
  by_cases here : ws.length = 8
  · simp [here]
  · simp only [if_neg here]
    rfl

theorem quanta_snoc {k : Nat} (inside : k < ws.length) : Quanta (ws ++ [w]) k ↔ Quanta ws k := by
  by_cases here : ws.length = 8
  · rw [Quanta, Quanta]
    constructor
    · rintro (⟨same, -⟩ | ⟨late, -⟩) <;> omega
    · rintro (⟨same, -⟩ | ⟨late, -⟩) <;> omega
  · rw [Quanta, Quanta, plainPause_snoc, prioPause_snoc, mask_snoc, if_neg here, if_neg here, if_neg here]

theorem quantas_snoc (q : BitVec 16) :
    q ∈ quantas (ws ++ [w]) ↔ q ∈ quantas ws ∨ (w.1 = q ∧ Quanta (ws ++ [w]) ws.length) := by
  constructor
  · rintro (rfl | ⟨k, w', word, rfl, quanta⟩)
    · exact .inl (.inl rfl)
    · rw [getElem?_snoc] at word
      split at word
      next last =>
        obtain rfl := Option.some.inj word
        exact .inr ⟨rfl, last ▸ quanta⟩
      next before =>
        have inside := (List.getElem?_eq_some_iff.mp word).1
        exact .inl (.inr ⟨k, w', word, rfl, (quanta_snoc ws w inside).mp quanta⟩)
  · rintro ((rfl | ⟨k, w', word, rfl, quanta⟩) | ⟨rfl, quanta⟩)
    · exact .inl rfl
    · have inside := (List.getElem?_eq_some_iff.mp word).1
      exact .inr ⟨k, w', by rw [getElem?_snoc, if_neg (by omega), word], rfl, (quanta_snoc ws w inside).mpr quanta⟩
    · exact .inr ⟨ws.length, w, by rw [getElem?_snoc, if_pos rfl], rfl, quanta⟩

/-- The register that takes in a greater quanta. -/
theorem greatest_snoc {m m' : BitVec 16} (greatest : IsGreatest (quantas ws) m)
    (taken : Quanta (ws ++ [w]) ws.length → m' = if m < w.1 then w.1 else m)
    (other : ¬ Quanta (ws ++ [w]) ws.length → m' = m) : IsGreatest (quantas (ws ++ [w])) m' := by
  by_cases quanta : Quanta (ws ++ [w]) ws.length
  · rw [taken quanta]
    split
    next more =>
      refine ⟨(quantas_snoc ws w _).mpr (.inr ⟨rfl, quanta⟩), fun q member => ?_⟩
      rcases (quantas_snoc ws w q).mp member with before | ⟨rfl, -⟩
      · exact BitVec.le_trans (greatest.2 before) (BitVec.le_of_lt more)
      · exact BitVec.le_refl _
    next less =>
      refine ⟨(quantas_snoc ws w _).mpr (.inl greatest.1), fun q member => ?_⟩
      rcases (quantas_snoc ws w q).mp member with before | ⟨rfl, -⟩
      · exact greatest.2 before
      · exact BitVec.not_lt.mp less
  · rw [other quanta]
    refine ⟨(quantas_snoc ws w _).mpr (.inl greatest.1), fun q member => ?_⟩
    rcases (quantas_snoc ws w q).mp member with before | ⟨-, now⟩
    · exact greatest.2 before
    · exact absurd now quanta

end Snoc

theorem shifted (v : BitVec 17) (n : Nat) (one : ∀ k, v.getLsbD k = (decide (k < 17) && decide (n = k))) (k : Nat) :
    (v <<< 1).getLsbD k = (decide (k < 17) && decide (n + 1 = k)) := by
  rw [BitVec.getLsbD_shiftLeft, one]
  cases k with
  | zero => simp
  | succ k =>
      by_cases inside : k + 1 < 17
      · simp [inside, show k < 17 by omega]
      · simp [inside]

/-- The priorities whose turn it is. -/
theorem turn_iff (v : BitVec 17) (m : BitVec 8) (n : Nat)
    (one : ∀ k, v.getLsbD k = (decide (k < 17) && decide (n = k))) :
    (v.extractLsb' 9 8 &&& m != 0) = true ↔ 9 ≤ n ∧ n ≤ 16 ∧ m.getLsbD (n - 9) = true := by
  have bit : ∀ p < 8, (v.extractLsb' 9 8 &&& m).getLsbD p = (decide (n = 9 + p) && m.getLsbD p) := by
    intro p inside
    rw [BitVec.getLsbD_and, BitVec.getLsbD_extractLsb', one, decide_eq_true inside, Bool.true_and,
      decide_eq_true (show 9 + p < 17 by omega), Bool.true_and]
  rw [bne_iff_ne]
  constructor
  · intro some
    by_contra none
    refine some (BitVec.eq_of_getLsbD_eq fun p inside => ?_)
    have off : (decide (n = 9 + p) && m.getLsbD p) = false := ?_
    · rw [bit p inside, off]
      simp
    rw [Bool.and_eq_false_iff, decide_eq_false_iff_not]
    by_cases here : n = 9 + p
    · right
      rw [← Bool.not_eq_true]
      exact fun set => none ⟨by omega, by omega, by rwa [show n - 9 = p by omega]⟩
    · exact .inl here
  · rintro ⟨least, most, set⟩ zero
    have here := bit (n - 9) (by omega)
    rw [zero, set, decide_eq_true (by omega)] at here
    simp at here

theorem Seen.quanta_short (seen : Seen s ws) (short : ws.length ≤ 8) : s.matchPauseQuanta = 0 := by
  rcases seen.quanta.1 with zero | ⟨k, w, -, -, ⟨-, obeyed⟩ | ⟨-, -, obeyed, -⟩⟩
  · exact zero
  · rw [plainPause_short ws short] at obeyed
    cases obeyed
  · rw [prioPause_short ws short] at obeyed
    cases obeyed

/-- A word keeps what the registers show. -/
theorem Seen.word (seen : Seen s ws) (w : Word) : Seen
    { s.matchPause w.1 w.2 with
      hdrOffset := s.hdrOffset <<< 1
      isTagged := (s.matchHp w.1 w.2).isTagged
      matchIsHp := (s.matchHp w.1 w.2).matchIsHp } (ws ++ [w]) := by
  obtain ⟨plain, prio⟩ := seen.kinds
  have at_ : ∀ k, k < 17 → s.hdrOffset.getLsbD k = decide (ws.length = k) := fun k inside => by
    rw [seen.offset, decide_eq_true inside, Bool.true_and]
  constructor
  case offset =>
    intro k
    rw [List.length_append, List.length_singleton]
    exact shifted s.hdrOffset ws.length seen.offset k
  case matched => exact seen.matched_snoc w
  case isPause =>
    simp only [matchPause, plain, prio, seen.isPause, pauseFrame_snoc]
    by_cases here : ws.length = 8
    · simp [here, pauseFrame_short]
    · simp [here]
  case perprio =>
    simp only [matchPause, prio, plain, seen.perprio, prioPause_snoc]
    by_cases here : ws.length = 8
    · simp [here, prioPause_short]
    · simp [here]
  case mask =>
    simp only [matchPause, prio, plain, seen.mask, mask_snoc]
    by_cases here : ws.length = 8
    · simp [here, mask_short]
    · simp [here]
  case req =>
    simp only [matchPause, plain, seen.req, seen.perprio, at_ 16 (by decide), plainPause_snoc, prioPause_snoc,
      List.length_append, List.length_singleton]
    by_cases here : ws.length = 8
    · simp [here, plainPause_short, prioPause_short]
    · by_cases last : ws.length = 16
      · simp [last, Bool.or_comm]
      · simp [here, last, show 16 < ws.length + 1 ↔ 16 < ws.length by omega]
  case quanta =>
    have turn := turn_iff s.hdrOffset s.pausePrioMask ws.length seen.offset
    rw [seen.mask] at turn
    refine greatest_snoc ws w seen.quanta (fun quanta => ?_) fun none => ?_
    · simp only [matchPause, plain, seen.perprio, seen.mask]
      rcases quanta with ⟨here, obeyed⟩ | ⟨least, most, obeyed, set⟩
      · rw [plainPause_snoc, if_pos here] at obeyed
        rw [prioPause_short ws here.le, decide_eq_true here, Bool.true_and, obeyed, seen.quanta_short here.le]
        simp
      · rw [prioPause_snoc, if_neg (by omega)] at obeyed
        rw [mask_snoc, if_neg (by omega)] at set
        rw [obeyed, turn.mpr ⟨least, most, set⟩, decide_eq_false (show ¬ ws.length = 8 by omega)]
        simp
    · simp only [matchPause, plain, seen.perprio, seen.mask]
      have first : (decide (ws.length = 8) && header ws 0x0001 && w.2.fcrRxpause) = false := by
        rw [← Bool.not_eq_true]
        intro set
        simp only [Bool.and_eq_true, decide_eq_true_eq] at set
        exact none (.inl ⟨set.1.1, by rw [plainPause_snoc, if_pos set.1.1, set.1.2, set.2]; rfl⟩)
      have later : (prioPause ws && (s.hdrOffset.extractLsb' 9 8 &&& EarlyMatch.mask ws != 0)) = false := by
        rw [← Bool.not_eq_true]
        intro set
        rw [Bool.and_eq_true, turn] at set
        obtain ⟨obeyed, least, most, bit⟩ := set
        refine none (.inr ⟨least, most, ?_, ?_⟩)
        · rw [prioPause_snoc, if_neg (by omega), obeyed]
        · rw [mask_snoc, if_neg (by omega), bit]
      rw [first, later]
      simp
  case tagged =>
    simp only [matchHp, at_ 5 (by decide), seen.tagged, isAt_snoc, decide_eq_true_eq]
  case hp =>
    simp only [matchHp, at_ 7 (by decide), seen.tagged, seen.hp, isAt_snoc, getElem?_snoc]
    by_cases here : ws.length = 7
    · cases isAt ws 5 0x8100 <;> simp [here]
    · by_cases early : ws.length = 5
      · simp [early]
      · simp [here, early]

/-! ### Frames -/

/-- Inside a frame. -/
def Inside (i : MatchIn) : Prop := i.rstN = true ∧ i.fab.sof = false

instance (i : MatchIn) : Decidable (Inside i) := inferInstanceAs (Decidable (_ ∧ _))

theorem seen_step (seen : Seen s ws) {i : MatchIn} (inside : Inside i) : Seen (s.step i) (ws ++ words [i]) := by
  rw [step, inside.1, inside.2, if_neg (by decide), words, List.flatMap_cons, List.flatMap_nil, List.append_nil]
  cases valid : i.fab.dvalid with
  | true => exact { seen.word (i.fab.data, i.regs) with }
  | false =>
      have same : ws ++ (if false = true then [(i.fab.data, i.regs)] else []) = ws := List.append_nil ws
      rw [same]
      exact { seen with }

theorem seen_run (seen : Seen s ws) (is : List MatchIn) (inside : ∀ i ∈ is, Inside i) :
    Seen (run step s is) (ws ++ words is) := by
  induction is generalizing s ws with
  | nil =>
      rw [words, List.flatMap_nil, List.append_nil]
      exact seen
  | cons i rest ih =>
      rw [List.forall_mem_cons] at inside
      have whole : ws ++ words (i :: rest) = (ws ++ words [i]) ++ words rest := by simp [words]
      rw [whole]
      exact ih (seen_step seen inside.1) inside.2

/-- `done_int` comes with the word behind the opcode at the latest, and before it after the opcode or an error. -/
theorem done_run (seen : Seen s ws) (is : List MatchIn) (inside : ∀ i ∈ is, Inside i) (early : 8 < ws.length →
    s.doneInt = true) : (8 < (ws ++ words is).length → (run step s is).doneInt = true) ∧
      ((run step s is).doneInt = true → s.doneInt = true ∨ 8 ≤ (ws ++ words is).length ∨
        ∃ i ∈ is, i.fab.error = true) := by
  induction is generalizing s ws with
  | nil => exact ⟨by simpa [words] using early, fun done => .inl done⟩
  | cons i rest ih =>
      rw [List.forall_mem_cons] at inside
      have whole : ws ++ words (i :: rest) = (ws ++ words [i]) ++ words rest := by simp [words]
      have next := seen_step seen inside.1
      have done : (s.step i).doneInt = (decide (ws.length = 8) || i.fab.error || s.doneInt) := by
        rw [step, inside.1.1, inside.1.2, if_neg (by decide), seen.offset 8]
        rfl
      have one : (words [i]).length ≤ 1 := by
        rw [words, List.flatMap_cons, List.flatMap_nil, List.append_nil]
        cases i.fab.dvalid <;> simp
      obtain ⟨sets, set⟩ := ih next inside.2 fun late => by
        rw [List.length_append] at late
        rw [done]
        by_cases here : ws.length = 8
        · simp [here]
        · simp [early (by omega)]
      rw [whole]
      refine ⟨sets, fun after => ?_⟩
      rcases set after with before | long | ⟨i', member, error⟩
      · rw [done, Bool.or_eq_true, Bool.or_eq_true, decide_eq_true_eq] at before
        rcases before with (here | error) | old
        · exact .inr (.inl (by rw [List.length_append, List.length_append]; omega))
        · exact .inr (.inr ⟨i, List.mem_cons_self, error⟩)
        · exact .inl old
      · exact .inr (.inl long)
      · exact .inr (.inr ⟨i', List.mem_cons_of_mem _ member, error⟩)

/-- A frame is taken for a pause frame when its address, its type and its opcode are those of one and a word follows;
if the endpoint obeys it, the pause is asked for with the priorities and the greatest of their quanta. The priority of a
tagged frame is only looked at when the source address ends in 81:00. -/
theorem pause_recognised (s : EarlyMatch) (start : MatchIn) (first : start.fab.sof = true) (is : List MatchIn)
    (inside : ∀ i ∈ is, Inside i) :
    let now := run step (s.step start) is
    let ws := words is
    (now.matchIsPause = true ↔ pauseFrame ws 0x0001 = true ∨ pauseFrame ws 0x0101 = true) ∧
      (now.matchPauseReq = true ↔ plainPause ws = true ∨ prioPause ws = true ∧ 16 < ws.length) ∧
      now.pausePrioMask = mask ws ∧
      IsGreatest (quantas ws) now.matchPauseQuanta ∧
      (8 < ws.length → now.doneInt = true) ∧
      (now.doneInt = true → 8 ≤ ws.length ∨ ∃ i ∈ is, i.fab.error = true) ∧
      ∀ gEarlyHpDetection, matchIsHpO gEarlyHpDetection now = true → isAt ws 5 0x8100 = true := by
  intro now ws
  have clears : s.step start = clear := by
    rw [step, first, Bool.or_true, if_pos rfl]
  have seen : Seen now ws := by
    have all := seen_run seen_clear is inside
    rwa [← clears, List.nil_append] at all
  obtain ⟨sets, set⟩ := done_run seen_clear is inside (by simp)
  rw [← clears, List.nil_append] at sets set
  refine ⟨?_, ?_, seen.mask, seen.quanta, sets, fun done => ?_, fun g hp => ?_⟩
  · rw [seen.isPause, Bool.or_eq_true]
  · rw [seen.req, Bool.or_eq_true, Bool.and_eq_true, decide_eq_true_eq]
  · refine (set done).resolve_left fun old => ?_
    rw [clears] at old
    cases old
  · rw [matchIsHpO, seen.hp, Bool.and_eq_true, Bool.and_eq_true] at hp
    exact hp.2.1

/-- A frame that pauses two priorities. -/
def prioInputs : List MatchIn :=
  [0x0180, 0xc200, 0x0001, 0x0000, 0x0000, 0x0000, 0x8808, 0x0101, 0x0005, 7, 99, 8, 0, 0, 0, 0, 0].map fun data =>
    { fab := { dvalid := true, data := data }, regs := ⟨true, true, false, 0⟩ }

theorem pause_recognised_prio : let now := run step (clear.step
      { fab := { sof := true }, regs := ⟨true, true, false, 0⟩ }) prioInputs
    now.matchPauseReq = true ∧ now.pausePrioMask = 0x05 ∧
      IsGreatest (quantas (words prioInputs)) now.matchPauseQuanta ∧ now.matchPauseQuanta = 8 := by
  obtain ⟨-, req, prios, greatest, -⟩ := pause_recognised clear
    { fab := { sof := true }, regs := ⟨true, true, false, 0⟩ } rfl prioInputs (by decide)
  exact ⟨req.mpr (by decide), prios.trans (by decide), greatest, by decide⟩

end EarlyMatch

end WrCores.Endpoint
