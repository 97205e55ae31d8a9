import Mathlib.Tactic
import WrCores.Clocked.Stream

/-!
`collect_tags` of dmtd_phase_meas.vhd: the tags of the two deglitchers come in any order, and `phase_raw` is to be the
difference of a tag of A and a tag of B. With both tags in one cycle the code subtracts the other way round.
-/

namespace WrCores.Timing.PhaseMeas

open Clocked

inductive PdState
  | waitTag
  | waitA
  | waitB
  deriving DecidableEq, Repr

structure In (n : Nat) where
  rstSysN : Bool
  enI : Bool
  tagAP : Bool
  tagA : BitVec n
  tagBP : Bool
  tagB : BitVec n
  deriving DecidableEq, Repr

structure State (n : Nat) where
  pdState : PdState
  phaseRaw : BitVec n
  phaseRawP : Bool
  deriving DecidableEq, Repr

variable {n : Nat}

def afterReset : State n := ⟨.waitTag, 0#n, false⟩

def State.collectTags (s : State n) (i : In n) : State n :=
  if !i.rstSysN || !i.enI then afterReset
  else
    match s.pdState with
    | .waitTag =>
        if i.tagAP && i.tagBP then { s with phaseRaw := i.tagB - i.tagA, phaseRawP := true }
        else if i.tagAP then ⟨.waitB, i.tagA, false⟩
        else if i.tagBP then ⟨.waitA, ~~~i.tagB + 1#n, false⟩
        else { s with phaseRawP := false }
    -- phase_raw_p stays as it is without the tag that is waited for
    | .waitA => if i.tagAP then ⟨.waitTag, s.phaseRaw + i.tagA, true⟩ else s
    | .waitB => if i.tagBP then ⟨.waitTag, s.phaseRaw - i.tagB, true⟩ else s

/-! ### Which tags belong together -/

section Pairs

variable (inputs : Nat → In n)

/-- The cycles of the pairs so far, and those of the first tags behind the last pair. -/
structure Pairing where
  tagA : Option Nat
  tagB : Option Nat
  pairs : List (Nat × Nat)
  deriving DecidableEq, Repr

def Pairing.take (p : Pairing) (tagA tagB : Option Nat) : Pairing :=
  match p.tagA <|> tagA, p.tagB <|> tagB with
  | some a, some b => ⟨none, none, p.pairs ++ [(a, b)]⟩
  | first, second => ⟨first, second, p.pairs⟩

def pairing : Nat → Pairing
  | 0 => ⟨none, none, []⟩
  | t + 1 => (pairing t).take (if (inputs t).tagAP then some t else none) (if (inputs t).tagBP then some t else none)

def stateAt (t : Nat) : State n := run State.collectTags afterReset (upTo inputs t)

/-- The pulses on `phase_raw_p` with their cycle and the phase. -/
def pulses : Nat → List (Nat × BitVec n)
  | 0 => []
  | t + 1 =>
      pulses t ++ if (stateAt inputs (t + 1)).phaseRawP then [(t + 1, (stateAt inputs (t + 1)).phaseRaw)] else []

/-- A pair is shown in the cycle after its later tag. -/
def phase (p : Nat × Nat) : Nat × BitVec n := (max p.1 p.2 + 1, (inputs p.1).tagA - (inputs p.2).tagB)

/-- What the code makes of a pair. -/
def measured (p : Nat × Nat) : Nat × BitVec n :=
  if p.1 = p.2 then (max p.1 p.2 + 1, (inputs p.2).tagB - (inputs p.1).tagA) else phase inputs p

/-- One tag of each for a pulse, no tag twice, and its phase the difference. -/
structure Phases (t : Nat) : Prop where
  tags : ∀ p ∈ (pairing inputs t).pairs, (inputs p.1).tagAP = true ∧ (inputs p.2).tagBP = true
  once : (pairing inputs t).pairs.Pairwise fun p q => p.1 < q.1 ∧ p.2 < q.2
  pulses : pulses inputs t = (pairing inputs t).pairs.map (phase inputs)

/-- Two tags that come in one cycle are the same or half a turn apart. -/
def Apart (s : State n) (i : In n) : Prop :=
  s.pdState = .waitTag → i.tagAP = true → i.tagBP = true → i.tagB - i.tagA = i.tagA - i.tagB

end Pairs

section Runs

variable {inputs : Nat → In n}

/-- The tags behind the last pair, none of them twice. -/
structure Fits (inputs : Nat → In n) (t : Nat) (p : Pairing) : Prop where
  strobeA : ∀ a ∈ p.tagA, a < t ∧ (inputs a).tagAP = true ∧ ∀ q ∈ p.pairs, q.1 < a
  strobeB : ∀ b ∈ p.tagB, b < t ∧ (inputs b).tagBP = true ∧ ∀ q ∈ p.pairs, q.2 < b
  tags : ∀ q ∈ p.pairs, (inputs q.1).tagAP = true ∧ (inputs q.2).tagBP = true
  past : ∀ q ∈ p.pairs, q.1 < t ∧ q.2 < t
  once : p.pairs.Pairwise fun p q => p.1 < q.1 ∧ p.2 < q.2

theorem first_strobe {P : Nat → Prop} {known : Option Nat} {t : Nat} (strobe : Bool)
    (before : ∀ a ∈ known, P a) (now : strobe = true → P t) :
    ∀ a ∈ (known <|> if strobe then some t else none), P a := by
  intro a found
  cases known with
  | some first => exact before a (by simpa using found)
  | none =>
      cases strobe with
      | false => simp at found
      | true =>
          obtain rfl : t = a := by simpa using found
          exact now rfl

theorem fits (inputs : Nat → In n) (t : Nat) : Fits inputs t (pairing inputs t) := by
  induction t with
  | zero => exact ⟨by simp [pairing], by simp [pairing], by simp [pairing], by simp [pairing], by simp [pairing]⟩
  | succ t ih =>
      have firstA := first_strobe (t := t) (inputs t).tagAP
        (P := fun a => a < t + 1 ∧ (inputs a).tagAP = true ∧ ∀ q ∈ (pairing inputs t).pairs, q.1 < a)
        (fun a known => ⟨(ih.strobeA a known).1.trans t.lt_succ_self, (ih.strobeA a known).2⟩)
        (fun now => ⟨t.lt_succ_self, now, fun q old => (ih.past q old).1⟩)
      have firstB := first_strobe (t := t) (inputs t).tagBP
        (P := fun b => b < t + 1 ∧ (inputs b).tagBP = true ∧ ∀ q ∈ (pairing inputs t).pairs, q.2 < b)
        (fun b known => ⟨(ih.strobeB b known).1.trans t.lt_succ_self, (ih.strobeB b known).2⟩)
        (fun now => ⟨t.lt_succ_self, now, fun q old => (ih.past q old).2⟩)
      have past : ∀ q ∈ (pairing inputs t).pairs, q.1 < t + 1 ∧ q.2 < t + 1 := fun q old =>
        ⟨(ih.past q old).1.trans t.lt_succ_self, (ih.past q old).2.trans t.lt_succ_self⟩
      rw [pairing, Pairing.take]
      split
      case h_1 a b someA someB =>
          have hereA := firstA a (by rw [someA]; rfl)
          have hereB := firstB b (by rw [someB]; rfl)
          constructor
          case strobeA => simp
          case strobeB => simp
          case tags =>
              exact List.forall_mem_append.mpr ⟨ih.tags, List.forall_mem_singleton.mpr ⟨hereA.2.1, hereB.2.1⟩⟩
          case past =>
              exact List.forall_mem_append.mpr ⟨past, List.forall_mem_singleton.mpr ⟨hereA.1, hereB.1⟩⟩
          case once =>
              refine List.pairwise_append.mpr ⟨ih.once, List.pairwise_singleton _ _, ?_⟩
              intro q old r new
              obtain rfl := List.mem_singleton.mp new
              exact ⟨hereA.2.2 q old, hereB.2.2 q old⟩
      case h_2 => exact ⟨firstA, firstB, ih.tags, past, ih.once⟩

/-- The register holds the lone tag with its sign. -/
def Holds (inputs : Nat → In n) (s : State n) (p : Pairing) : Prop :=
  match s.pdState with
  | .waitTag => p.tagA = none ∧ p.tagB = none
  | .waitB => p.tagB = none ∧ s.phaseRawP = false ∧ ∃ a, p.tagA = some a ∧ s.phaseRaw = (inputs a).tagA
  | .waitA => p.tagA = none ∧ s.phaseRawP = false ∧ ∃ b, p.tagB = some b ∧ s.phaseRaw = -(inputs b).tagB

theorem stateAt_succ (inputs : Nat → In n) (t : Nat) :
    stateAt inputs (t + 1) = (stateAt inputs t).collectTags (inputs t) := by
  rw [stateAt, upTo_snoc, run_append]
  rfl

/-- One edge: the tags taken and the pulse made are those of the pairing. -/
theorem holds_step (enabled : ∀ t, (inputs t).rstSysN = true ∧ (inputs t).enI = true) (t : Nat)
    (before : Holds inputs (stateAt inputs t) (pairing inputs t)) :
    Holds inputs (stateAt inputs (t + 1)) (pairing inputs (t + 1)) ∧
      (pairing inputs (t + 1)).pairs.map (measured inputs) = (pairing inputs t).pairs.map (measured inputs) ++
        if (stateAt inputs (t + 1)).phaseRawP then [(t + 1, (stateAt inputs (t + 1)).phaseRaw)] else [] := by
  have fit := fits inputs t
  obtain ⟨running, on⟩ := enabled t
  rw [stateAt_succ, pairing]
  revert before fit
  generalize pairing inputs t = p
  generalize stateAt inputs t = s
  intro before fit
  obtain ⟨state, raw, pulse⟩ := s
  obtain ⟨first, second, pairs⟩ := p
  cases state
  case waitTag =>
      obtain ⟨rfl, rfl⟩ := before
      cases strobeA : (inputs t).tagAP <;> cases strobeB : (inputs t).tagBP <;>
        simp [State.collectTags, Pairing.take, Holds, running, on, strobeA, strobeB, measured, BitVec.neg_eq_not_add]
  case waitA =>
      obtain ⟨rfl, rfl, b, rfl, rfl⟩ := before
      have older : b < t := (fit.strobeB b rfl).1
      cases strobeA : (inputs t).tagAP
      · simp [State.collectTags, Pairing.take, Holds, running, on, strobeA]
      · simp [State.collectTags, Pairing.take, Holds, running, on, strobeA, measured, phase, older.ne', older.le,
          BitVec.sub_eq_add_neg, BitVec.add_comm]
  case waitB =>
      obtain ⟨rfl, rfl, a, rfl, rfl⟩ := before
      have older : a < t := (fit.strobeA a rfl).1
      cases strobeB : (inputs t).tagBP
      · simp [State.collectTags, Pairing.take, Holds, running, on, strobeB]
      · simp [State.collectTags, Pairing.take, Holds, running, on, strobeB, measured, phase, older.ne, older.le]

theorem holds_always (enabled : ∀ t, (inputs t).rstSysN = true ∧ (inputs t).enI = true) (t : Nat) :
    Holds inputs (stateAt inputs t) (pairing inputs t) := by
  induction t with
  | zero => exact ⟨rfl, rfl⟩
  | succ t ih => exact (holds_step enabled t ih).1

/-- What the code shows, whatever the order of the tags. -/
theorem pulses_measured (enabled : ∀ t, (inputs t).rstSysN = true ∧ (inputs t).enI = true) (t : Nat) :
    pulses inputs t = (pairing inputs t).pairs.map (measured inputs) := by
  induction t with
  | zero => rfl
  | succ t ih => rw [pulses, ih, (holds_step enabled t (holds_always enabled t)).2]

theorem pairs_together (enabled : ∀ t, (inputs t).rstSysN = true ∧ (inputs t).enI = true) {t : Nat}
    (waiting : (stateAt inputs t).pdState = .waitTag) (strobeA : (inputs t).tagAP = true)
    (strobeB : (inputs t).tagBP = true) : (t, t) ∈ (pairing inputs (t + 1)).pairs := by
  have before := holds_always enabled t
  rw [Holds, waiting] at before
  simp [pairing, Pairing.take, before.1, before.2, strobeA, strobeB]

theorem together_of_pair (enabled : ∀ t, (inputs t).rstSysN = true ∧ (inputs t).enI = true) {t : Nat} {u : Nat}
    (pair : (u, u) ∈ (pairing inputs t).pairs) :
    (stateAt inputs u).pdState = .waitTag ∧ (inputs u).tagAP = true ∧ (inputs u).tagBP = true := by
  induction t with
  | zero => simp [pairing] at pair
  | succ t ih =>
      have before := holds_always enabled t
      have fit := fits inputs t
      have strobes := (fits inputs (t + 1)).tags (u, u) pair
      rw [pairing, Pairing.take] at pair
      split at pair
      case h_2 => exact ih pair
      case h_1 a b someA someB =>
          rcases List.mem_append.mp pair with old | new
          · exact ih old
          · obtain ⟨rfl, rfl⟩ : u = a ∧ u = b := by simpa using new
            cases waiting : (stateAt inputs t).pdState
            case waitTag =>
                rw [Holds, waiting] at before
                obtain ⟨-, rfl⟩ : (inputs t).tagAP = true ∧ t = u := by simpa [before.1] using someA
                exact ⟨waiting, strobes⟩
            case waitA =>
                rw [Holds, waiting] at before
                obtain ⟨none, -, b, known, -⟩ := before
                obtain ⟨-, rfl⟩ : (inputs t).tagAP = true ∧ t = u := by simpa [none] using someA
                obtain rfl : b = t := by simpa [known] using someB
                exact absurd (fit.strobeB b known).1 (Nat.lt_irrefl b)
            case waitB =>
                rw [Holds, waiting] at before
                obtain ⟨none, -, a, known, -⟩ := before
                obtain ⟨-, rfl⟩ : (inputs t).tagBP = true ∧ t = u := by simpa [none] using someB
                obtain rfl : a = t := by simpa [known] using someA
                exact absurd (fit.strobeA a known).1 (Nat.lt_irrefl a)

theorem phases_iff (enabled : ∀ t, (inputs t).rstSysN = true ∧ (inputs t).enI = true) :
    (∀ t, Phases inputs t) ↔ Throughout State.collectTags Apart afterReset inputs := by
  rw [throughout_iff]
  constructor
  · intro right t waiting strobeA strobeB
    have same := (pulses_measured enabled (t + 1)).symm.trans (right (t + 1)).pulses
    have here := List.map_inj_left.mp same (t, t) (pairs_together enabled waiting strobeA strobeB)
    simpa [measured, phase] using here
  · intro apart t
    have fit := fits inputs t
    refine ⟨fit.tags, fit.once, ?_⟩
    rw [pulses_measured enabled t]
    refine List.map_congr_left fun p pair => ?_
    obtain ⟨a, b⟩ := p
    by_cases same : a = b
    · subst same
      obtain ⟨waiting, strobeA, strobeB⟩ := together_of_pair enabled pair
      simpa [measured, phase] using apart a waiting strobeA strobeB
    · simp [measured, same]

/-- A tag of A in the cycle `a`, one of B in the cycle `b`. -/
def oneEach (a b : Nat) (tagA tagB : BitVec 14) (t : Nat) : In 14 := ⟨true, true, t == a, tagA, t == b, tagB⟩

theorem oneEach_phase : Phases (oneEach 1 0 3#14 5#14) 2 :=
  (@phases_iff 14 (oneEach 1 0 3#14 5#14) fun _ => ⟨rfl, rfl⟩).2
    (throughout_iff.2 fun t _ strobeA strobeB => by
      have one : t = 1 := by simpa [oneEach] using strobeA
      have zero : t = 0 := by simpa [oneEach] using strobeB
      omega) 2

theorem together_turned :
    ¬ ∀ inputs : Nat → In 14, (∀ t, (inputs t).rstSysN = true ∧ (inputs t).enI = true) → ∀ t, Phases inputs t := by
  intro all
  have shown := (all (oneEach 0 0 5#14 3#14) (fun _ => ⟨rfl, rfl⟩) 1).pulses
  exact absurd shown (by decide)

end Runs

end WrCores.Timing.PhaseMeas
