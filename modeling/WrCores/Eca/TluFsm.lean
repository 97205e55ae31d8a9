import WrCores.Clocked.Stream
import WrCores.Eca.Free
import WrCores.Eca.MsiRuns
import WrCores.Samples.Stretches

/-!
eca_tlu_fsm.vhd, the edge detector of an input that comes in words of `g_serdes` samples, bit 0 the earliest. The counting
takes three stages: a word is counted into `r_increment` two cycles after it came, and added to `r_opposed` in the next.
An edge is taken when the input has been flat for long enough, with the time of the median of its samples.
-/

namespace WrCores.Eca.TluFsm

open Clocked Samples

/-- `serdes` is g_serdes, `stable` g_stable and `history` c_history_bits. -/
structure State (serdes stable history : Nat) where
  rPrior : Bool
  rGpio : BitVec serdes
  rFlat : BitVec stable
  rIncrement : BitVec (fEcaLog2 (serdes + 1))
  rOpposed : BitVec history
  rState : Bool
  rStb : Bool
  rEdge : Bool
  rTime : BitVec 64
  deriving DecidableEq, Repr

structure In (serdes : Nat) where
  enableI : Bool
  timeI : BitVec 64
  gpioI : BitVec serdes
  ackI : Bool
  deriving DecidableEq, Repr

variable {serdes stable history : Nat}

/-- `(others => level)`. -/
def fill (level : Bool) : BitVec serdes := if level then BitVec.allOnes serdes else BitVec.ofNat serdes 0

def fCount (x : BitVec serdes) : BitVec (fEcaLog2 (serdes + 1)) :=
  (List.range serdes).foldl (fun result k => result + (BitVec.ofBool (x.getLsbD k)).setWidth _) 0#_

/-- `c_delay_adjust` in the bits of `r_opposed`. -/
def cOpposedInit (serdes history : Nat) : BitVec history := BitVec.ofNat history (serdes * 4)

structure AfterReset (s : State serdes stable history) : Prop where
  rPrior : s.rPrior = false
  rGpio : s.rGpio = 0#_
  rFlat : s.rFlat = 0#_
  rIncrement : s.rIncrement = 0#_
  rOpposed : s.rOpposed = cOpposedInit serdes history
  rState : s.rState = false
  rStb : s.rStb = false

namespace State

variable (s : State serdes stable history) (stableI : BitVec stable)

def sFlatEq : Bool := fEcaEq s.rFlat stableI

/-- The word goes on with the level of the last sample before it. -/
def flat : Bool := s.rGpio == fill s.rPrior

/-- The history is dropped. -/
def clears : Bool := s.flat && s.sFlatEq stableI

def records : Bool := s.clears stableI && s.rState != s.rPrior

def step (i : In serdes) : State serdes stable history where
  rPrior := s.rGpio.msb
  rGpio := i.gpioI
  rFlat := if s.flat then s.rFlat + (BitVec.ofBool (!s.sFlatEq stableI)).setWidth stable else 0#_
  rIncrement := if s.clears stableI then 0#_ else fCount (s.rGpio ^^^ fill s.rState)
  rOpposed :=
    if s.clears stableI then cOpposedInit serdes history else s.rOpposed + s.rIncrement.setWidth history
  rState := if s.clears stableI then s.rPrior else s.rState
  rStb := if s.records stableI then i.enableI else if i.ackI then false else s.rStb
  rEdge := if s.records stableI then s.rPrior else s.rEdge
  rTime := if s.records stableI then i.timeI - s.rOpposed.setWidth 64 else s.rTime

end State

theorem stable_pos {stableI : BitVec stable} (positive : stableI ≠ 0#_) : 0 < stable := by
  by_contra none
  exact positive (BitVec.eq_of_toNat_eq (by have := stableI.isLt; simp_all))

/-! ### Counting a word -/

theorem getLsbD_fill (level : Bool) {k : Nat} (inside : k < serdes) :
    (fill level : BitVec serdes).getLsbD k = level := by
  cases level <;> simp [fill, inside]

theorem fCount_eq (x : BitVec serdes) :
    fCount x = BitVec.ofNat _ (Nat.count (fun k => x.getLsbD k = true) serdes) := by
  have counted (n : Nat) : (List.range n).foldl
      (fun result k => result + (BitVec.ofBool (x.getLsbD k)).setWidth (fEcaLog2 (serdes + 1))) 0#_ =
        BitVec.ofNat _ (Nat.count (fun k => x.getLsbD k = true) n) := by
    induction n with
    | zero => simp
    | succ n ih =>
        rw [List.range_succ, List.foldl_append, ih, Nat.count_succ, BitVec.ofNat_add, List.foldl_cons, List.foldl_nil]
        cases x.getLsbD n
        · simp
        · exact congrArg _ (BitVec.eq_of_toNat_eq (by simp))
  exact counted serdes

theorem count_congr {p q : Nat → Prop} [DecidablePred p] [DecidablePred q] {n : Nat} (same : ∀ k < n, p k ↔ q k) :
    Nat.count p n = Nat.count q n :=
  Nat.le_antisymm (Nat.count_mono_left fun k inside => (same k inside).1)
    (Nat.count_mono_left fun k inside => (same k inside).2)

/-- The samples of a word that are opposed to the state. -/
theorem fCount_opposed (x : BitVec serdes) (level : Bool) :
    fCount (x ^^^ fill level) = BitVec.ofNat _ (Nat.count (fun k => x.getLsbD k = !level) serdes) := by
  rw [fCount_eq]
  congr 1
  refine count_congr fun k inside => ?_
  rw [BitVec.getLsbD_xor, getLsbD_fill level inside]
  cases x.getLsbD k <;> cases level <;> decide

/-! ### The stream -/

section Stream

variable (gpio : Nat → BitVec serdes)

/-- Sample `p` of the words. -/
def sample (p : Nat) : Bool := (gpio (p / serdes)).getLsbD (p % serdes)

/-- The words in `r_gpio`: low before the first. -/
def held : Nat → BitVec serdes
  | 0 => BitVec.ofNat serdes 0
  | t + 1 => gpio t

/-- The samples with the value `v` in the words from `a` on and before `b`. -/
def inWords (v : Bool) (a b : Nat) : Nat := number (sample gpio) v (a * serdes) (b * serdes)

/-- The input is flat at `level` in the comparison of the cycle `t`. -/
def FlatAt (level : Bool) (t : Nat) : Prop := held gpio t = fill level ∧ (held gpio (t - 1)).msb = level

/-- The `n + 1` comparisons up to that of the cycle `t` are flat. -/
def FlatFor (level : Bool) (n t : Nat) : Prop := n ≤ t ∧ ∀ k, t - n ≤ k → k ≤ t → FlatAt gpio level k

/-- The comparison of the cycle `t`. -/
def steady (t : Nat) : Bool := held gpio t == fill (held gpio (t - 1)).msb

/-- The history that is in force in the cycle `t`: kept since the cycle `v`, which found the input flat at `level`. -/
structure Since (level : Bool) (n v t : Nat) : Prop where
  last : v = 0 ∧ level = false ∨ FlatFor gpio level n v
  none : ∀ k, v < k → k < t → ∀ l, ¬ FlatFor gpio l n k

/-- As many samples of the new value before `p` as of the old one from there on, in the words from `a` on and before `b`. -/
def Median (old : Bool) (a b p : Nat) : Prop := Balanced (sample gpio) (!old) (a * serdes) (b * serdes) p

variable {gpio} {v : Bool} {a b c t : Nat}

theorem sample_word (t k : Nat) (inside : k < serdes) : sample gpio (t * serdes + k) = (gpio t).getLsbD k := by
  rw [sample, Nat.mul_comm, Nat.mul_add_div (by omega), Nat.div_eq_of_lt inside, Nat.mul_add_mod,
    Nat.mod_eq_of_lt inside, Nat.add_zero]

theorem inWords_none (less : b ≤ a) : inWords gpio v a b = 0 := by
  rw [inWords, number, Nat.sub_eq_zero_of_le (Nat.mul_le_mul_right serdes less), Nat.count_zero]

theorem inWords_one (t : Nat) :
    inWords gpio v t (t + 1) = Nat.count (fun k => (gpio t).getLsbD k = v) serdes := by
  rw [inWords, number, Nat.succ_mul, Nat.add_sub_cancel_left]
  exact count_congr fun k inside => by rw [sample_word t k inside]

theorem inWords_split (left : a ≤ b) (right : b ≤ c) :
    inWords gpio v a c = inWords gpio v a b + inWords gpio v b c :=
  number_split (Nat.mul_le_mul_right serdes left) (Nat.mul_le_mul_right serdes right)

theorem inWords_fill (filled : gpio t = fill v) : inWords gpio v t (t + 1) = serdes := by
  rw [inWords_one, filled]
  exact Nat.count_of_forall fun k inside => getLsbD_fill v inside

theorem inWords_le (one : b ≤ a + 1) : inWords gpio v a b ≤ serdes := by
  rcases Nat.lt_or_eq_of_le one with none | rfl
  · rw [inWords_none (Nat.le_of_lt_succ none)]
    exact serdes.zero_le
  · rw [inWords_one]
    exact Nat.count_le _

/-- The word in `r_gpio`, of which none counts that came before the clear. -/
theorem count_held (behind : a = 0 ∧ t = 0 ∨ a < t) (settled : held gpio a = fill (!v)) :
    Nat.count (fun k => (held gpio t).getLsbD k = v) serdes = inWords gpio v (max a (t - 1)) t := by
  cases t with
  | zero =>
      obtain rfl : a = 0 := by omega
      rw [inWords_none (Nat.zero_le _), settled, Nat.count_iff_forall_not]
      intro k inside
      rw [getLsbD_fill _ inside]
      exact Bool.not_ne_self v
  | succ t =>
      rw [Nat.max_eq_right (by omega), Nat.add_sub_cancel, inWords_one]
      rfl

/-- The sum of a history with its newest word. -/
theorem add_increment (a t : Nat) {w : Nat} :
    (BitVec.ofNat w (serdes * 4 + inWords gpio v a (t - 2)) +
      (BitVec.ofNat (fEcaLog2 (serdes + 1)) (inWords gpio v (max a (t - 2)) (t - 1))).setWidth w) =
    BitVec.ofNat w (serdes * 4 + inWords gpio v a (t - 1)) := by
  have small : inWords gpio v (max a (t - 2)) (t - 1) ≤ serdes := inWords_le (by omega)
  have wide : serdes + 1 ≤ 2 ^ fEcaLog2 (serdes + 1) := Msi.go_bound _ _ le_rfl
  have sum : inWords gpio v a (t - 1) =
      inWords gpio v a (t - 2) + inWords gpio v (max a (t - 2)) (t - 1) := by
    by_cases late : a ≤ t - 2
    · rw [Nat.max_eq_right late]
      exact inWords_split late (by omega)
    · rw [Nat.max_eq_left (by omega), inWords_none (b := t - 2) (by omega), Nat.zero_add]
  have same : (BitVec.ofNat (fEcaLog2 (serdes + 1)) (inWords gpio v (max a (t - 2)) (t - 1))).setWidth w =
      BitVec.ofNat w (inWords gpio v (max a (t - 2)) (t - 1)) := by
    apply BitVec.eq_of_toNat_eq
    rw [BitVec.toNat_setWidth, BitVec.toNat_ofNat, BitVec.toNat_ofNat,
      Nat.mod_eq_of_lt (b := 2 ^ fEcaLog2 (serdes + 1)) (by omega)]
  rw [same, ← BitVec.ofNat_add, sum, Nat.add_assoc]

end Stream

/-! ### The history -/

section Run

variable (stableI : BitVec stable) (s : State serdes stable history) (inputs : Nat → In serdes)

def stateAt (t : Nat) : State serdes stable history := run (fun s i => s.step stableI i) s (upTo inputs t)

/-- The words that came. -/
def words (t : Nat) : BitVec serdes := (inputs t).gpioI

/-- The last cycle before `t` that dropped the history. -/
def lastClear : Nat → Nat
  | 0 => 0
  | t + 1 => if (stateAt stableI s inputs t).clears stableI then t else lastClear t

/-- The registers before the cycle `t`, of which `v` was the last that dropped the history. -/
structure Follows (gpio : Nat → BitVec serdes) (t v : Nat) (s : State serdes stable history) : Prop where
  rGpio : s.rGpio = held gpio t
  rPrior : s.rPrior = (held gpio (t - 1)).msb
  behind : v = 0 ∧ t = 0 ∨ v < t
  lasting : Lasting (steady gpio) true stableI.toNat t s.rFlat.toNat
  settled : held gpio v = fill s.rState
  increment : s.rIncrement = BitVec.ofNat _ (inWords gpio (!s.rState) (max v (t - 2)) (t - 1))
  opposed : s.rOpposed = BitVec.ofNat history (serdes * 4 + inWords gpio (!s.rState) v (t - 2))

variable {stableI s inputs}

theorem lastClear_le (t : Nat) : lastClear stableI s inputs t ≤ t := by
  induction t with
  | zero => rfl
  | succ t ih =>
      rw [lastClear]
      split
      · exact t.le_succ
      · exact ih.trans t.le_succ

theorem stateAt_succ (t : Nat) :
    stateAt stableI s inputs (t + 1) = (stateAt stableI s inputs t).step stableI (inputs t) := by
  rw [stateAt, upTo_snoc, run_append]
  rfl

theorem follows_reset (reset : AfterReset s) (gpio : Nat → BitVec serdes) : Follows stableI gpio 0 0 s where
  rGpio := reset.rGpio
  rPrior := by simp [reset.rPrior, held]
  behind := .inl ⟨rfl, rfl⟩
  lasting := by
    rw [reset.rFlat]
    exact lasting_start
  settled := by
    rw [reset.rState]
    rfl
  increment := by
    rw [reset.rIncrement, inWords_none (Nat.zero_le _)]
  opposed := by
    rw [reset.rOpposed, inWords_none (Nat.zero_le _)]
    rfl

section Step

variable {gpio : Nat → BitVec serdes} {t v : Nat} {i : In serdes}

theorem Follows.flat (follows : Follows stableI gpio t v s) : s.flat = steady gpio t := by
  rw [State.flat, steady, follows.rGpio, follows.rPrior]

/-- A comparison that is flat and finds `r_flat` at its end. -/
theorem Follows.clears_iff (follows : Follows stableI gpio t v s) (positive : stableI ≠ 0#_) :
    s.clears stableI = true ↔ stableI.toNat ≤ t ∧ Flat (steady gpio) true (t - stableI.toNat) (t + 1) := by
  have bits := stable_pos positive
  rw [State.clears, Bool.and_eq_true, State.sFlatEq, fEcaEq_eq, follows.flat, ← follows.lasting.full_iff]
  simp [bits, BitVec.toNat_inj]

theorem rFlat_next (follows : Follows stableI gpio t v s) (positive : stableI ≠ 0#_) (i : In serdes) :
    (if steady gpio t = true then min (s.rFlat.toNat + 1) stableI.toNat else 0) = (s.step stableI i).rFlat.toNat := by
  have most := follows.lasting.most
  have bound := stableI.isLt
  have full : s.sFlatEq stableI = decide (s.rFlat = stableI) := by
    rw [State.sFlatEq, fEcaEq_eq, decide_eq_true (stable_pos positive), Bool.true_and]
  rw [← follows.flat]
  cases flat : s.flat with
  | false => simp [State.step, flat]
  | true =>
      by_cases same : s.rFlat = stableI
      · simp [State.step, flat, full, same]
      · have less : s.rFlat.toNat < stableI.toNat := lt_of_le_of_ne most fun e => same (BitVec.eq_of_toNat_eq e)
        have room : 1 < 2 ^ stable := by omega
        simp [State.step, flat, full, same, BitVec.toNat_add, Nat.mod_eq_of_lt room]
        rw [Nat.mod_eq_of_lt (by omega)]
        omega

theorem Follows.next (follows : Follows stableI gpio t v s) (positive : stableI ≠ 0#_) (here : i.gpioI = gpio t) :
    Follows stableI gpio (t + 1) (if s.clears stableI then t else v) (s.step stableI i) := by
  have level : held gpio v = fill (!!s.rState) := by rw [Bool.not_not]; exact follows.settled
  constructor
  case rGpio => exact here
  case rPrior => exact congrArg BitVec.msb follows.rGpio
  case behind =>
      have behind := follows.behind
      split <;> omega
  case lasting =>
      rw [← rFlat_next follows positive i]
      exact follows.lasting.next
  case settled =>
      cases clears : s.clears stableI with
      | false => simpa [State.step, clears] using follows.settled
      | true =>
          have flat : s.flat = true := by simp_all [State.clears]
          rw [State.flat, follows.rGpio, beq_iff_eq] at flat
          simpa [State.step, clears] using flat
  case increment =>
      cases clears : s.clears stableI with
      | false =>
          simp only [State.step, clears, Bool.false_eq_true, if_false]
          rw [follows.rGpio, fCount_opposed, count_held follows.behind level]
          rfl
      | true =>
          simp only [State.step, clears, if_true]
          rw [inWords_none (by omega)]
  case opposed =>
      cases clears : s.clears stableI with
      | false =>
          simp only [State.step, clears, Bool.false_eq_true, if_false]
          rw [follows.opposed, follows.increment, add_increment]
          rfl
      | true =>
          simp only [State.step, clears, if_true]
          rw [inWords_none (by omega)]
          rfl

end Step

theorem follows_run (inputs : Nat → In serdes) (reset : AfterReset s) (positive : stableI ≠ 0#_) (t : Nat) :
    Follows stableI (words inputs) t (lastClear stableI s inputs t) (stateAt stableI s inputs t) := by
  induction t with
  | zero => exact follows_reset reset _
  | succ t ih =>
      rw [stateAt_succ, lastClear]
      exact ih.next positive rfl

theorem fill_msb (wide : 0 < serdes) (level : Bool) : (fill level : BitVec serdes).msb = level := by
  rw [BitVec.msb_eq_getLsbD_last, getLsbD_fill level (by omega)]

/-- Steady comparisons in a row are all flat at the level of the last. -/
theorem flatFor_iff (wide : 0 < serdes) {gpio : Nat → BitVec serdes} {level : Bool} {n t : Nat} :
    FlatFor gpio level n t ↔
      n ≤ t ∧ Flat (steady gpio) true (t - n) (t + 1) ∧ (held gpio (t - 1)).msb = level := by
  constructor
  · rintro ⟨room, flat⟩
    refine ⟨room, fun k behind before => ?_, (flat t (by omega) le_rfl).2⟩
    obtain ⟨filled, before⟩ := flat k behind (by omega)
    simp [steady, filled, before]
  · rintro ⟨room, flat, last⟩
    refine ⟨room, fun k behind before => ?_⟩
    have level_at : (held gpio (k - 1)).msb = level := by
      induction before using Nat.decreasingInduction with
      | self => exact last
      | of_succ k less ih =>
          have filled := flat k behind (by omega)
          rw [steady, beq_iff_eq] at filled
          have next := ih (by omega)
          rwa [Nat.add_sub_cancel, filled, fill_msb wide] at next
    have filled := flat k behind (by omega)
    rw [steady, beq_iff_eq, level_at] at filled
    exact ⟨filled, level_at⟩

theorem Follows.clears_flat {t v : Nat} {gpio : Nat → BitVec serdes} (follows : Follows stableI gpio t v s)
    (wide : 0 < serdes) (positive : stableI ≠ 0#_) (level : Bool) :
    s.clears stableI = true ∧ s.rPrior = level ↔ FlatFor gpio level stableI.toNat t := by
  rw [follows.clears_iff positive, follows.rPrior, flatFor_iff wide, and_assoc]

theorem step_rState (i : In serdes) :
    (s.step stableI i).rState = if s.clears stableI then s.rPrior else s.rState := rfl

theorem since_run (reset : AfterReset s) (wide : 0 < serdes) (positive : stableI ≠ 0#_) (t : Nat) :
    Since (words inputs) (stateAt stableI s inputs t).rState stableI.toNat (lastClear stableI s inputs t) t := by
  induction t with
  | zero => exact ⟨.inl ⟨rfl, reset.rState⟩, fun k _ before => absurd before k.not_lt_zero⟩
  | succ t ih =>
      have follows := follows_run inputs reset positive t
      rw [stateAt_succ, lastClear, step_rState]
      cases clears : (stateAt stableI s inputs t).clears stableI with
      | true =>
          rw [if_pos rfl, if_pos rfl]
          exact ⟨.inr ((follows.clears_flat wide positive _).1 ⟨clears, rfl⟩),
            fun k behind before => absurd before (by omega)⟩
      | false =>
          rw [if_neg Bool.false_ne_true, if_neg Bool.false_ne_true]
          refine ⟨ih.last, fun k behind before l flat => ?_⟩
          rcases Nat.lt_succ_iff_lt_or_eq.mp before with old | rfl
          · exact ih.none k behind old l flat
          · have now := ((follows.clears_flat wide positive l).2 flat).1
            rw [clears] at now
            exact Bool.noConfusion now

/-- The words of an edge: the two that end it are flat, and none of them came before the clear. -/
theorem edge_words (reset : AfterReset s) (wide : 0 < serdes) (positive : stableI ≠ 0#_) {u : Nat}
    (flat : FlatFor (words inputs) (!(stateAt stableI s inputs u).rState) stableI.toNat u) :
    lastClear stableI s inputs u + 2 ≤ u ∧
      inWords (words inputs) (!(stateAt stableI s inputs u).rState) (lastClear stableI s inputs u) u =
        inWords (words inputs) (!(stateAt stableI s inputs u).rState) (lastClear stableI s inputs u) (u - 2) +
          2 * serdes := by
  have follows := follows_run inputs reset positive u
  have early : lastClear stableI s inputs u ≤ u := lastClear_le u
  have some : 1 ≤ stableI.toNat := by
    by_contra none
    exact positive (BitVec.eq_of_toNat_eq (by simp; omega))
  have room := flat.1
  have last := (flat.2 u (by omega) le_rfl).1
  have before := (flat.2 (u - 1) (by omega) (by omega)).1
  have apart (k : Nat) (new : held (words inputs) k = fill (!(stateAt stableI s inputs u).rState)) :
      lastClear stableI s inputs u ≠ k := by
    intro same
    have level := congrArg BitVec.msb (new.symm.trans (same ▸ follows.settled))
    rw [fill_msb wide, fill_msb wide] at level
    exact Bool.not_ne_self _ level
  have first := apart u last
  have second := apart (u - 1) before
  obtain ⟨k, rfl⟩ : ∃ k, u = k + 2 := ⟨u - 2, by omega⟩
  refine ⟨by omega, ?_⟩
  have one : inWords (words inputs) (!(stateAt stableI s inputs (k + 2)).rState) k (k + 1) = serdes :=
    inWords_fill before
  have two : inWords (words inputs) (!(stateAt stableI s inputs (k + 2)).rState) (k + 1) (k + 2) = serdes :=
    inWords_fill last
  rw [Nat.add_sub_cancel, inWords_split (b := k) (by omega) (by omega),
    inWords_split (a := k) (b := k + 1) (by omega) (by omega), one, two, Nat.two_mul]

/-- An edge is taken in the cycle `u`: its polarity is the new level, and its time is that of the median of the samples
since the history was dropped, less two words. -/
structure EdgeAt (gpio : Nat → BitVec serdes) (time : BitVec 64) (v u : Nat)
  (before after : State serdes stable history) :
    Prop where
  polarity : after.rEdge = !before.rState
  state : after.rState = !before.rState
  time : serdes * 4 + inWords gpio (!before.rState) v u < 2 ^ history →
    ∃ p, (∀ q, Median gpio before.rState v u q ↔ q = p) ∧
      after.rTime = time + BitVec.ofNat 64 p - BitVec.ofNat 64 (2 * serdes)
  clean : ∀ e, v * serdes ≤ e → e ≤ u * serdes → Flat (sample gpio) before.rState (v * serdes) e →
    Flat (sample gpio) (!before.rState) e (u * serdes) → Median gpio before.rState v u e

theorem edge_of_flat (reset : AfterReset s) (wide : 0 < serdes) (positive : stableI ≠ 0#_) {time : BitVec 64}
    (clock : ∀ t, (inputs t).timeI = time + BitVec.ofNat 64 (t * serdes)) {u : Nat}
    (records : (stateAt stableI s inputs u).records stableI = true)
    (flat : FlatFor (words inputs) (!(stateAt stableI s inputs u).rState) stableI.toNat u) :
    EdgeAt (words inputs) time (lastClear stableI s inputs u) u (stateAt stableI s inputs u)
      (stateAt stableI s inputs (u + 1)) := by
  have follows := follows_run inputs reset positive u
  obtain ⟨early, counted⟩ := edge_words reset wide positive flat
  obtain ⟨clears, level⟩ := (follows.clears_flat wide positive _).2 flat
  rw [stateAt_succ]
  generalize lastClear stableI s inputs u = v at *
  generalize stateAt stableI s inputs u = before at *
  have inside : v * serdes ≤ u * serdes := Nat.mul_le_mul_right serdes (by omega)
  have both := number_both (x := sample (words inputs)) (v := !before.rState) inside
  have medians (q : Nat) : Median (words inputs) before.rState v u q ↔
      q = v * serdes + inWords (words inputs) before.rState v u := by
    rw [Median, balanced_iff inside, Bool.not_not]
    rfl
  constructor
  case polarity => simp [State.step, records, level]
  case state => simp [State.step, clears, level]
  case time =>
      intro fits
      refine ⟨_, medians, ?_⟩
      rw [Bool.not_not] at both
      have opposed : before.rOpposed.setWidth 64 =
          BitVec.ofNat 64 (serdes * 4 + inWords (words inputs) (!before.rState) v (u - 2)) := by
        apply BitVec.eq_of_toNat_eq
        rw [follows.opposed, BitVec.toNat_setWidth, BitVec.toNat_ofNat, BitVec.toNat_ofNat,
          Nat.mod_eq_of_lt (show serdes * 4 + inWords (words inputs) (!before.rState) v
            (u - 2) < 2 ^ history by omega)]
      have place : u * serdes = v * serdes + inWords (words inputs) before.rState v u + 2 * serdes +
          inWords (words inputs) (!before.rState) v (u - 2) := by
        rw [inWords] at counted ⊢
        omega
      have shown : (before.step stableI (inputs u)).rTime = (inputs u).timeI - before.rOpposed.setWidth 64 :=
        if_pos records
      rw [shown, clock, opposed, place, show serdes * 4 = 2 * serdes + 2 * serdes by omega]
      simp only [BitVec.ofNat_add]
      ring
  case clean =>
      intro e left right old new
      exact balanced_edge left right (by rwa [Bool.not_not]) new

theorem edges_are_medians (reset : AfterReset s) (wide : 0 < serdes) (positive : stableI ≠ 0#_) {time : BitVec 64}
    (clock : ∀ t, (inputs t).timeI = time + BitVec.ofNat 64 (t * serdes)) (u : Nat) :
    let before := stateAt stableI s inputs u
    let after := stateAt stableI s inputs (u + 1)
    ∃ v, Since (words inputs) before.rState stableI.toNat v u ∧
      (before.records stableI = true ↔ FlatFor (words inputs) (!before.rState) stableI.toNat u) ∧
      (before.records stableI = false → after.rEdge = before.rEdge ∧ after.rTime = before.rTime) ∧
      (before.records stableI = true → EdgeAt (words inputs) time v u before after) := by
  have follows := follows_run inputs reset positive u
  have recorded : (stateAt stableI s inputs u).records stableI = true ↔
      FlatFor (words inputs) (!(stateAt stableI s inputs u).rState) stableI.toNat u := by
    rw [← follows.clears_flat wide positive, State.records, Bool.and_eq_true, bne_iff_ne]
    cases (stateAt stableI s inputs u).rState <;> simp
  refine ⟨_, since_run reset wide positive u, recorded, fun none => ?_, fun records => ?_⟩
  · rw [stateAt_succ, State.step]
    simp [none]
  · exact edge_of_flat reset wide positive clock records (recorded.1 records)

end Run

def blank : State 8 3 14 := ⟨false, 0#8, 0#3, 0#_, cOpposedInit 8 14, false, false, false, 0#64⟩

/-- The line rises with sample 12. -/
def rising (t : Nat) : In 8 :=
  ⟨true, BitVec.ofNat 64 (t * 8), if t = 0 then 0x00#8 else if t = 1 then 0xf0#8 else 0xff#8, false⟩

theorem edges_are_medians_rising :
    (stateAt 2#3 blank rising 6).rTime = 12#64 - 16#64 ∧
      ∃ v, EdgeAt (words rising) 0#64 v 5 (stateAt 2#3 blank rising 5) (stateAt 2#3 blank rising 6) := by
  refine ⟨by decide, ?_⟩
  have reset : AfterReset blank := ⟨rfl, rfl, rfl, rfl, rfl, rfl, rfl⟩
  obtain ⟨v, -, -, -, taken⟩ := @edges_are_medians 8 3 14 2#3 blank rising reset (by decide) (by decide) 0#64
    (fun t => (BitVec.zero_add _).symm) 5
  exact ⟨v, taken (by decide)⟩

end WrCores.Eca.TluFsm
