import WrCores.Clocked.Stream
import WrCores.Endpoint.Pkg

/-!
ep_sync_detect.vhd. A byte K28.5 is taken as a comma whatever `k_i` and `err_i` are, and the group behind a comma may
have an error. With real commas in these places the port shows what it is to show, and in no other case.
-/

namespace WrCores.Endpoint.SyncDetect

open Clocked

inductive FsmState
  | lossOfSync
  | commaDetect1
  | acquireSync1
  | commaDetect2
  | acquireSync2
  | commaDetect3
  | syncAcquired1
  | syncAcquired2
  | syncAcquired3
  | syncAcquired4
  | syncAcquired2A
  | syncAcquired3A
  | syncAcquired4A
  deriving DecidableEq, Repr

structure In where
  rstN : Bool := true
  enI : Bool := true
  dataI : BitVec 8
  kI : Bool
  errI : Bool := false
  calI : Bool := false
  deriving DecidableEq, Repr

structure State where
  state : FsmState
  syncedO : Bool
  rxEven : Bool
  goodCgs : BitVec 3
  deriving DecidableEq, Repr

def afterReset : State := ⟨.lossOfSync, false, false, 0⟩

def In.isD (i : In) : Bool := !i.kI

def In.comma (i : In) : Bool := i.dataI == cK28_5

namespace State

variable (s : State) (i : In)

def cgbad : Bool := i.errI || (i.kI && i.comma && !s.rxEven)

def cggood : Bool := !(i.errI || (i.kI && i.comma && !s.rxEven))

def evenO : Bool := s.rxEven

/-- Behind `SYNC_ACQUIRED_1`: the last assignment to the state wins. -/
def check (good : Bool) (better worse : FsmState) : FsmState :=
  if s.cgbad i then worse else if good && s.cggood i then better else s.state

def fsm : State :=
  match s.state with
  | .lossOfSync =>
      if i.comma then { s with syncedO := false, rxEven := false, state := .commaDetect1 }
      else { s with syncedO := false, rxEven := !s.rxEven }
  | .commaDetect1 => { s with rxEven := !s.rxEven, state := if i.isD then .acquireSync1 else .lossOfSync }
  | .acquireSync1 =>
      if s.cgbad i then { s with state := .lossOfSync, rxEven := !s.rxEven }
      else if s.rxEven && i.comma then { s with rxEven := false, state := .commaDetect2 }
      else { s with rxEven := !s.rxEven }
  | .commaDetect2 => { s with rxEven := !s.rxEven, state := if i.isD then .acquireSync2 else .lossOfSync }
  | .acquireSync2 =>
      if s.cgbad i then { s with state := .lossOfSync, rxEven := !s.rxEven }
      else if s.rxEven && i.comma then { s with rxEven := false, state := .commaDetect3 }
      else { s with rxEven := !s.rxEven }
  | .commaDetect3 => { s with rxEven := !s.rxEven, state := if i.isD then .syncAcquired1 else .lossOfSync }
  | .syncAcquired1 =>
      { s with syncedO := true, rxEven := !s.rxEven, state := s.check i true .syncAcquired1 .syncAcquired2 }
  | .syncAcquired2 =>
      { s with rxEven := !s.rxEven, goodCgs := 0, state := s.check i true .syncAcquired2A .syncAcquired3 }
  | .syncAcquired2A =>
      { s with
        rxEven := !s.rxEven
        goodCgs := s.goodCgs + 1
        state := s.check i (s.goodCgs == 3) .syncAcquired1 .syncAcquired3 }
  | .syncAcquired3 =>
      { s with rxEven := !s.rxEven, goodCgs := 0, state := s.check i true .syncAcquired3A .syncAcquired4 }
  | .syncAcquired3A =>
      { s with
        rxEven := !s.rxEven
        goodCgs := s.goodCgs + 1
        state := s.check i (s.goodCgs == 3) .syncAcquired2 .syncAcquired4 }
  | .syncAcquired4 =>
      { s with rxEven := !s.rxEven, goodCgs := 0, state := s.check i true .syncAcquired4A .lossOfSync }
  | .syncAcquired4A =>
      { s with
        rxEven := !s.rxEven
        goodCgs := s.goodCgs + 1
        state := s.check i (s.goodCgs == 3) .syncAcquired3 .lossOfSync }

def step : State := if !i.rstN then afterReset else if !i.enI then afterReset else if !i.calI then s.fsm i else s

end State

/-! ### The groups behind the first comma -/

variable (g : Nat → In)

def stateAt (t : Nat) : State := run State.step afterReset (upTo g t)

theorem stateAt_succ (t : Nat) : stateAt g (t + 1) = (stateAt g t).step (g t) := by
  rw [stateAt, upTo_snoc, run_append]
  rfl

/-- A comma group without error. -/
def RealComma (i : In) : Prop := i.kI = true ∧ i.dataI = cK28_5 ∧ i.errI = false

/-- Three commas behind each other at even distances, with clean groups in between, seen before cycle `t`. -/
structure Commas (left t p₁ p₂ p₃ : Nat) : Prop where
  first : left ≤ p₁
  second : p₁ < p₂
  third : p₂ < p₃
  seen : p₃ + 1 ≤ t
  commas : RealComma (g p₁) ∧ RealComma (g p₂) ∧ RealComma (g p₃)
  follow : (g (p₁ + 1)).kI = false ∧ (g (p₂ + 1)).kI = false ∧ (g (p₃ + 1)).kI = false
  even : (p₂ - p₁) % 2 = 0 ∧ (p₃ - p₂) % 2 = 0
  clean : ∀ m, p₁ < m → m < p₃ → (g m).errI = false ∧ ((m - p₁) % 2 = 1 → ¬ ((g m).kI = true ∧ (g m).dataI = cK28_5))

/-- While `synced_o` stays up from cycle `t + 1` on, `even_o` shows the distance from `p`. -/
def EvenFrom (t p : Nat) : Prop := ∀ u, t < u → (∀ v, t < v → v ≤ u → (stateAt g v).syncedO = true) →
  (stateAt g u).evenO = decide ((u - p) % 2 = 0)

/-- The FSM was in `LOSS_OF_SYNC` in cycle `left` for the last time before `t`. -/
def LeftAt (left t : Nat) : Prop :=
  left < t ∧ (stateAt g left).state = .lossOfSync ∧ ∀ u, left < u → u ≤ t → (stateAt g u).state ≠ .lossOfSync

/-- `synced_o` rises behind cycle `t`. -/
def Rises (t : Nat) : Prop := (stateAt g t).syncedO = false ∧ (stateAt g (t + 1)).syncedO = true

/-- What is taken for a comma is one, and the group behind the first and the second has no error. -/
def Sound (s : State) (i : In) : Prop :=
  match s.state with
  | .lossOfSync => i.comma = true → i.kI = true ∧ i.errI = false
  | .commaDetect1 | .commaDetect2 => i.errI = false
  | .acquireSync1 | .acquireSync2 => s.rxEven = true → i.comma = true → i.kI = true
  | _ => True

/-! ### What the states say about the groups -/

/-- The groups from the one behind `c` up to `t`: data first, and neither errors nor commas in the rest. -/
def Gap (c t : Nat) : Prop := c + 2 ≤ t ∧ (g (c + 1)).kI = false ∧
  ∀ m, c + 2 ≤ m → m < t → (g m).errI = false ∧ ¬ ((g m).kI = true ∧ (g m).dataI = cK28_5)

/-- The FSM takes `d` for the comma behind the one at `c`. -/
def Next (c d : Nat) : Prop := Gap g c d ∧ (d - c) % 2 = 0 ∧ (g d).comma = true ∧ (g d).errI = false

def First (c : Nat) : Prop := (g c).kI = true ∧ (g c).errI = false

def Follows (c : Nat) : Prop := (g (c + 1)).errI = false

/-- The groups since `left`, read off the state; `met` says that all steps so far were sound. -/
def Since (left t : Nat) (met : Prop) : FsmState → Prop
  | .lossOfSync => False
  | .commaDetect1 => t = left + 1 ∧ (g left).comma = true ∧ (met ↔ First g left)
  | .acquireSync1 => Gap g left t ∧ (g left).comma = true ∧ (met ↔ First g left ∧ Follows g left)
  | .commaDetect2 => ∃ c, t = c + 1 ∧ Next g left c ∧ (g left).comma = true ∧
      (met ↔ (First g left ∧ Follows g left) ∧ (g c).kI = true)
  | .acquireSync2 => ∃ c, Gap g c t ∧ Next g left c ∧ (g left).comma = true ∧
      (met ↔ ((First g left ∧ Follows g left) ∧ (g c).kI = true) ∧ Follows g c)
  | .commaDetect3 => ∃ c d, t = d + 1 ∧ Next g c d ∧ Next g left c ∧ (g left).comma = true ∧
      (met ↔ (((First g left ∧ Follows g left) ∧ (g c).kI = true) ∧ Follows g c) ∧ (g d).kI = true)
  | _ => ∃ c d, d + 2 ≤ t ∧ (g (d + 1)).kI = false ∧ Next g c d ∧ Next g left c ∧ (g left).comma = true ∧
      (met ↔ (((First g left ∧ Follows g left) ∧ (g c).kI = true) ∧ Follows g c) ∧ (g d).kI = true)

def Met (left t : Nat) : Prop := ∀ u, left ≤ u → u < t → Sound (stateAt g u) (g u)

/-- Between the first comma and the group behind the third one. -/
def FsmState.waits : FsmState → Bool
  | .commaDetect1 | .acquireSync1 | .commaDetect2 | .acquireSync2 | .commaDetect3 => true
  | _ => false

def FsmState.acquired : FsmState → Bool
  | .lossOfSync | .commaDetect1 | .acquireSync1 | .commaDetect2 | .acquireSync2 | .commaDetect3 => false
  | _ => true

/-- The registers beside the state. -/
structure Beside (left t : Nat) (s : State) : Prop where
  even : s.rxEven = decide ((t - left) % 2 = 0)
  before : s.state.waits = true → s.syncedO = false
  after : s.state.acquired = true → s.state ≠ .syncAcquired1 → s.syncedO = true

variable {g}

theorem met_succ {left t : Nat} (later : left ≤ t) :
    Met g left (t + 1) ↔ Met g left t ∧ Sound (stateAt g t) (g t) := by
  constructor
  · exact fun all => ⟨fun u from' before => all u from' (by omega), all t later (Nat.lt_succ_self t)⟩
  · rintro ⟨all, now⟩ u from' before
    rcases Nat.lt_succ_iff_lt_or_eq.1 before with before | rfl
    · exact all u from' before
    · exact now

theorem comma_iff (i : In) : i.comma = true ↔ i.dataI = cK28_5 := beq_iff_eq

/-- A step that does not lose the synchronisation is one of the FSM. -/
theorem step_active {s : State} {i : In} (uncalibrated : i.calI = false) (kept : (s.step i).state ≠ .lossOfSync) :
    s.step i = s.fsm i := by
  rw [State.step] at kept ⊢
  rw [uncalibrated] at kept ⊢
  split at kept
  · exact absurd rfl kept
  · split at kept
    · exact absurd rfl kept
    · rw [if_neg ‹_›, if_neg ‹_›]
      rfl

theorem fsm_toggles {s : State} {i : In} (sync : s.state ≠ .lossOfSync) : (s.fsm i).rxEven = !s.rxEven := by
  rw [State.fsm]
  split <;> first | contradiction | rfl | (split <;> [rfl; (split <;> simp_all)])

/-! ### Steps -/

/-- What the states behind the third comma say. -/
def Synced (g : Nat → In) (left t : Nat) (met : Prop) : Prop :=
  ∃ c d, d + 2 ≤ t ∧ (g (d + 1)).kI = false ∧ Next g c d ∧ Next g left c ∧ (g left).comma = true ∧
    (met ↔ (((First g left ∧ Follows g left) ∧ (g c).kI = true) ∧ Follows g c) ∧ (g d).kI = true)

theorem since_acquired {left t : Nat} {met : Prop} {st : FsmState} (acquired : st.acquired = true) :
    Since g left t met st ↔ Synced g left t met := by
  cases st <;> first | rfl | cases acquired

theorem fsm_acquired {s : State} {i : In} (acquired : s.state.acquired = true) :
    (s.fsm i).state = .lossOfSync ∨ (s.fsm i).state.acquired = true := by
  have checked (good : Bool) (better worse : FsmState) (one : better.acquired = true)
      (other : worse = .lossOfSync ∨ worse.acquired = true) :
      s.check i good better worse = .lossOfSync ∨ (s.check i good better worse).acquired = true := by
    rw [State.check]
    split
    · exact other
    · split
      · exact .inr one
      · exact .inr acquired
  cases here : s.state <;> simp only [State.fsm, here] <;> first
    | exact checked _ _ _ rfl (.inl rfl)
    | exact checked _ _ _ rfl (.inr rfl)
    | (rw [here] at acquired; cases acquired)

theorem Gap.snoc {c t : Nat} (gap : Gap g c t) (fine : (g t).errI = false)
    (plain : ¬ ((g t).kI = true ∧ (g t).dataI = cK28_5)) : Gap g c (t + 1) := by
  refine ⟨by have := gap.1; omega, gap.2.1, fun m from' before => ?_⟩
  rcases Nat.lt_succ_iff_lt_or_eq.1 before with before | rfl
  · exact gap.2.2 m from' before
  · exact ⟨fine, plain⟩

/-- A step in one of the two states that wait for a comma at an even distance. -/
theorem acquire_step {s : State} {i : In} (good : s.cgbad i = false) :
    i.errI = false ∧ ((s.rxEven && i.comma) = false → ¬ (i.kI = true ∧ i.dataI = cK28_5)) := by
  rw [State.cgbad, Bool.or_eq_false_iff] at good
  refine ⟨good.1, fun waits both => ?_⟩
  have comma := (comma_iff i).2 both.2
  rw [both.1, comma] at good
  rw [comma] at waits
  cases even : s.rxEven <;> simp [even] at good waits

theorem parity_succ {t left : Nat} (later : left ≤ t) :
    decide ((t + 1 - left) % 2 = 0) = !decide ((t - left) % 2 = 0) := by
  rw [← decide_not, decide_eq_decide]
  omega

theorem parity_of_even {c left t : Nat} (order : left ≤ c) (behind : c ≤ t) (even : (c - left) % 2 = 0)
    (now : (t - left) % 2 = 0) : (t - c) % 2 = 0 := by
  omega

theorem not_taken {s : State} {i : In} (waits : (s.rxEven && i.comma) = false) :
    s.rxEven = true → i.comma = true → i.kI = true := by
  intro even comma
  rw [even, comma] at waits
  cases waits

/-- Before the third comma has been followed `synced_o` is down. -/
theorem fsm_quiet {s : State} {i : In} (sync : s.state ≠ .lossOfSync)
    (quiet : s.state.waits = true → s.syncedO = false) (waits : (s.fsm i).state.waits = true) :
    (s.fsm i).syncedO = false := by
  cases acquired : s.state.acquired with
  | true =>
      rcases fsm_acquired (i := i) acquired with lost | stays
      · rw [lost] at waits
        cases waits
      · cases next : (s.fsm i).state <;> simp [next, FsmState.waits, FsmState.acquired] at waits stays
  | false =>
      have up : s.syncedO = false := quiet (by
        cases here : s.state <;> simp [here, FsmState.waits, FsmState.acquired] at acquired sync ⊢)
      have same : (s.fsm i).syncedO = s.syncedO := by
        cases here : s.state <;> simp [here, FsmState.acquired] at acquired sync <;> simp only [State.fsm, here] <;>
          split <;> first | rfl | (split <;> rfl)
      rw [same, up]

theorem fsm_up {s : State} {i : In} (after : s.state.acquired = true → s.state ≠ .syncAcquired1 → s.syncedO = true)
    (acquired : (s.fsm i).state.acquired = true) (behind : (s.fsm i).state ≠ .syncAcquired1) :
    (s.fsm i).syncedO = true := by
  cases here : s.state with
  | commaDetect3 =>
      simp only [State.fsm, here] at acquired behind
      cases data : i.isD <;> simp [data, FsmState.acquired] at acquired behind
  | lossOfSync | commaDetect1 | acquireSync1 | commaDetect2 | acquireSync2 =>
      simp only [State.fsm, here] at acquired
      split at acquired
      all_goals first
        | cases acquired
        | (split at acquired <;> cases acquired)
  | syncAcquired1 => simp only [State.fsm, here]
  | _ =>
      simp only [State.fsm, here]
      exact after (by rw [here]; rfl) (by rw [here]; decide)

theorem since_step (uncalibrated : ∀ t, (g t).calI = false) {left t : Nat} (later : left < t)
    (sync : (stateAt g t).state ≠ .lossOfSync) (kept : (stateAt g (t + 1)).state ≠ .lossOfSync)
    (beside : Beside left t (stateAt g t)) (since : Since g left t (Met g left t) (stateAt g t).state) :
    Beside left (t + 1) (stateAt g (t + 1)) ∧
      Since g left (t + 1) (Met g left (t + 1)) (stateAt g (t + 1)).state := by
  rw [stateAt_succ] at kept ⊢
  have edge := step_active (uncalibrated t) kept
  rw [edge] at kept ⊢
  rw [met_succ later.le]
  have even : ((stateAt g t).fsm (g t)).rxEven = decide ((t + 1 - left) % 2 = 0) := by
    rw [fsm_toggles sync, beside.even, parity_succ later.le]
  generalize Met g left t = met at *
  have parity := beside.even
  have quiet := beside.before
  generalize stateAt g t = s at *
  refine ⟨⟨even, fsm_quiet sync quiet, fsm_up beside.after⟩, ?_⟩
  · cases here : s.state with
    | lossOfSync => exact absurd here sync
    | commaDetect1 =>
        simp only [here, Since] at since
        simp only [State.fsm, here] at kept ⊢
        obtain ⟨now, comma, met⟩ := since
        cases data : (g t).isD with
        | false => simp [data] at kept
        | true =>
            subst now
            rw [In.isD, Bool.not_eq_true'] at data
            rw [if_pos rfl]
            refine ⟨⟨le_rfl, data, fun m _ _ => by omega⟩, comma, ?_⟩
            rw [met, Sound, here, Follows]
    | acquireSync1 =>
        simp only [here, Since] at since
        obtain ⟨gap, comma, met⟩ := since
        cases bad : s.cgbad (g t) with
        | true => simp [State.fsm, here, bad] at kept
        | false =>
            obtain ⟨fine, plain⟩ := acquire_step bad
            cases taken : s.rxEven && (g t).comma with
            | true =>
                simp only [State.fsm, here, bad, taken, Bool.false_eq_true, if_false, if_true, Since]
                obtain ⟨isEven, isComma⟩ := Bool.and_eq_true_iff.1 taken
                refine ⟨t, rfl, ⟨gap, ?_, isComma, fine⟩, comma, ?_⟩
                · rw [parity] at isEven
                  exact of_decide_eq_true isEven
                · rw [met, Sound, here]
                  simp [isEven, isComma]
            | false =>
                simp only [State.fsm, here, bad, taken, Bool.false_eq_true, if_false, Since]
                refine ⟨gap.snoc fine (plain taken), comma, ?_⟩
                rw [met, Sound, here]
                exact and_iff_left (not_taken taken)
    | commaDetect2 =>
        simp only [here, Since] at since
        simp only [State.fsm, here] at kept ⊢
        obtain ⟨c, now, next, comma, met⟩ := since
        cases data : (g t).isD with
        | false => simp [data] at kept
        | true =>
            subst now
            rw [In.isD, Bool.not_eq_true'] at data
            rw [if_pos rfl]
            refine ⟨c, ⟨le_rfl, data, fun m _ _ => by omega⟩, next, comma, ?_⟩
            rw [met, Sound, here]
            exact Iff.rfl
    | acquireSync2 =>
        simp only [here, Since] at since
        obtain ⟨c, gap, next, comma, met⟩ := since
        cases bad : s.cgbad (g t) with
        | true => simp [State.fsm, here, bad] at kept
        | false =>
            obtain ⟨fine, plain⟩ := acquire_step bad
            cases taken : s.rxEven && (g t).comma with
            | true =>
                simp only [State.fsm, here, bad, taken, Bool.false_eq_true, if_false, if_true, Since]
                obtain ⟨isEven, isComma⟩ := Bool.and_eq_true_iff.1 taken
                refine ⟨c, t, rfl, ⟨gap, ?_, isComma, fine⟩, next, comma, ?_⟩
                · rw [parity] at isEven
                  have first := next.1.1
                  have second := gap.1
                  exact parity_of_even (by omega) (by omega) next.2.1 (of_decide_eq_true isEven)
                · rw [met, Sound, here]
                  simp [isEven, isComma]
            | false =>
                simp only [State.fsm, here, bad, taken, Bool.false_eq_true, if_false, Since]
                refine ⟨c, gap.snoc fine (plain taken), next, comma, ?_⟩
                rw [met, Sound, here]
                exact and_iff_left (not_taken taken)
    | commaDetect3 =>
        simp only [here, Since] at since
        simp only [State.fsm, here] at kept ⊢
        obtain ⟨c, d, now, third, second, comma, met⟩ := since
        cases data : (g t).isD with
        | false => simp [data] at kept
        | true =>
            subst now
            rw [In.isD, Bool.not_eq_true'] at data
            rw [if_pos rfl]
            refine ⟨c, d, le_rfl, data, third, second, comma, ?_⟩
            rw [met, Sound, here, and_true]
    | _ =>
        have acquired : s.state.acquired = true := by rw [here]; rfl
        rw [since_acquired acquired] at since
        have sound : Sound s (g t) := by
          rw [Sound, here]
          trivial
        rcases fsm_acquired (i := g t) acquired with lost | stays
        · exact absurd lost kept
        · rw [since_acquired stays]
          obtain ⟨c, d, behind, data, third, second, comma, met⟩ := since
          exact ⟨c, d, by omega, data, third, second, comma, by rw [and_iff_left sound, met]⟩

/-! ### Runs -/

section Runs

variable (uncalibrated : ∀ t, (g t).calI = false) {left t : Nat}

include uncalibrated in
theorem since_left (leftAt : LeftAt g left t) :
    Beside left t (stateAt g t) ∧ Since g left t (Met g left t) (stateAt g t).state := by
  obtain ⟨before, lost, sync⟩ := leftAt
  induction t, Nat.succ_le_of_lt before using Nat.le_induction with
  | base =>
      have kept := sync (left + 1) (Nat.lt_succ_self left) le_rfl
      rw [Nat.succ_eq_add_one, stateAt_succ] at *
      have edge := step_active (uncalibrated left) kept
      rw [edge] at kept ⊢
      cases comma : (g left).comma with
      | false => simp [State.fsm, lost, comma] at kept
      | true =>
          have taken : (stateAt g left).fsm (g left) =
              { stateAt g left with syncedO := false, rxEven := false, state := .commaDetect1 } := by
            rw [State.fsm, lost]
            exact if_pos comma
          rw [taken]
          refine ⟨⟨by simp, fun _ => rfl, fun none => by cases none⟩, rfl, comma, ?_⟩
          constructor
          · intro met
            have sound := met left le_rfl (Nat.lt_succ_self left)
            rw [Sound, lost] at sound
            exact sound comma
          · intro first u from' before
            obtain rfl : u = left := by omega
            rw [Sound, lost]
            exact fun _ => first
  | succ t later ih =>
      obtain ⟨beside, since⟩ := ih (by omega) fun u after upTo => sync u after (by omega)
      exact since_step uncalibrated later (sync t later (Nat.le_succ t)) (sync (t + 1) (by omega) le_rfl) beside since

theorem exists_left (sync : (stateAt g t).state ≠ .lossOfSync) : ∃ left, LeftAt g left t := by
  induction t with
  | zero => exact absurd rfl sync
  | succ t ih =>
      by_cases lost : (stateAt g t).state = .lossOfSync
      · refine ⟨t, Nat.lt_succ_self t, lost, fun u after upTo => ?_⟩
        obtain rfl : u = t + 1 := by omega
        exact sync
      · obtain ⟨left, before, lost, all⟩ := ih lost
        refine ⟨left, by omega, lost, fun u after upTo => ?_⟩
        rcases Nat.le_succ_iff.1 upTo with upTo | rfl
        · exact all u after upTo
        · exact sync

theorem step_rises {s : State} {i : In} (down : s.syncedO = false) (up : (s.step i).syncedO = true) :
    s.state = .syncAcquired1 ∧ s.step i = s.fsm i := by
  have active : s.step i = s.fsm i := by
    rw [State.step] at up ⊢
    split at up
    · cases up
    · split at up
      · cases up
      · split at up
        · rw [if_neg ‹_›, if_neg ‹_›, if_pos ‹_›]
        · rw [down] at up
          cases up
  rw [active] at up
  refine ⟨?_, active⟩
  cases here : s.state <;> first
    | rfl
    | (simp only [State.fsm, here] at up
       first
         | (rw [down] at up; cases up)
         | (split at up <;> first | (rw [down] at up; cases up) | cases up |
             (split at up <;> (rw [down] at up; cases up))))

/-- `SYNC_ACQUIRED_1` is entered with `synced_o` down from one state only. -/
theorem fsm_third {s : State} {i : In} (sync : s.state ≠ .lossOfSync)
    (after : s.state.acquired = true → s.state ≠ .syncAcquired1 → s.syncedO = true)
    (now : (s.fsm i).state = .syncAcquired1) (down : (s.fsm i).syncedO = false) : s.state = .commaDetect3 := by
  cases here : s.state with
  | commaDetect3 => rfl
  | lossOfSync => exact absurd here sync
  | commaDetect1 | acquireSync1 | commaDetect2 | acquireSync2 =>
      simp only [State.fsm, here] at now
      split at now
      all_goals first
        | cases now
        | (split at now <;> cases now)
  | syncAcquired1 =>
      simp only [State.fsm, here] at down
      cases down
  | _ =>
      simp only [State.fsm, here] at down
      rw [after (by rw [here]; rfl) (by rw [here]; decide)] at down
      cases down

include uncalibrated in
/-- `synced_o` rises with the second group behind the third comma. -/
theorem rises_since (rises : Rises g t) : ∃ left c d, LeftAt g left t ∧ t = d + 2 ∧ (g (d + 1)).kI = false ∧
    Next g c d ∧ Next g left c ∧ (g left).comma = true ∧
    (Met g left t ↔ (((First g left ∧ Follows g left) ∧ (g c).kI = true) ∧ Follows g c) ∧ (g d).kI = true) := by
  have up := rises.2
  rw [stateAt_succ] at up
  obtain ⟨now, _⟩ := step_rises rises.1 up
  have sync : (stateAt g t).state ≠ .lossOfSync := by rw [now]; decide
  obtain ⟨left, leftAt⟩ := exists_left sync
  obtain ⟨u, rfl⟩ : ∃ u, t = u + 1 := Nat.exists_eq_succ_of_ne_zero (by have := leftAt.1; omega)
  have down := rises.1
  rw [stateAt_succ] at now down sync
  have edge := step_active (uncalibrated u) sync
  rw [edge] at now down
  have inside : left < u := by
    rcases Nat.lt_succ_iff_lt_or_eq.1 leftAt.1 with inside | rfl
    · exact inside
    · rw [State.fsm, leftAt.2.1] at now
      simp only at now
      split at now <;> cases now
  have before : LeftAt g left u := ⟨inside, leftAt.2.1, fun v after upTo => leftAt.2.2 v after (by omega)⟩
  obtain ⟨beside, since⟩ := since_left uncalibrated before
  have third : (stateAt g u).state = .commaDetect3 := fsm_third (before.2.2 u inside le_rfl) beside.after now down
  rw [third, Since] at since
  obtain ⟨c, d, place, next, first, comma, met⟩ := since
  have data : (g (d + 1)).kI = false := by
    rw [State.fsm, third, place] at now
    cases follows : (g (d + 1)).isD with
    | false => simp [follows] at now
    | true => rwa [In.isD, Bool.not_eq_true'] at follows
  refine ⟨left, c, d, leftAt, by omega, data, next, first, comma, ?_⟩
  rw [met_succ inside.le, met, Sound, third, and_true]

/-- Where `synced_o` is up behind an edge, the FSM has made it. -/
theorem step_stays {s : State} {i : In} (uncalibrated : i.calI = false) (up : (s.step i).syncedO = true) :
    s.step i = s.fsm i ∧ s.state ≠ .lossOfSync := by
  rw [State.step, uncalibrated] at up ⊢
  split at up
  · cases up
  · split at up
    · cases up
    · rw [if_neg ‹_›, if_neg ‹_›]
      refine ⟨rfl, fun lost => ?_⟩
      rw [Bool.not_false, if_pos rfl] at up
      simp only [State.fsm, lost] at up
      split at up <;> cases up

include uncalibrated in
/-- `even_o` shows the distance from the first comma in all later cycles with `synced_o`. -/
theorem even_from (leftAt : LeftAt g left t) (rises : Rises g t) : EvenFrom g t left := by
  have up := rises.2
  rw [stateAt_succ] at up
  obtain ⟨now, edge⟩ := step_rises rises.1 up
  have sync : (stateAt g t).state ≠ .lossOfSync := by rw [now]; decide
  intro u after
  induction u, Nat.succ_le_of_lt after using Nat.le_induction with
  | base =>
      intro _
      rw [Nat.succ_eq_add_one, stateAt_succ, edge, State.evenO, fsm_toggles sync,
        (since_left uncalibrated leftAt).1.even, parity_succ leftAt.1.le]
  | succ u later ih =>
      intro all
      have here := ih (by omega) fun v after upTo => all v after (by omega)
      have next := all (u + 1) (by omega) le_rfl
      have inside := leftAt.1
      rw [stateAt_succ] at next ⊢
      obtain ⟨active, sync⟩ := step_stays (uncalibrated u) next
      rw [active, State.evenO, fsm_toggles sync, parity_succ (by omega), ← here, State.evenO]

/-- The commas that the FSM took are the only ones it can have seen. -/
theorem taken_of_real {c d p : Nat} (data : (g (d + 1)).kI = false) (third : Next g c d) (second : Next g left c)
    (from' : left ≤ p) (seen : p + 1 ≤ d + 2) (real : RealComma (g p)) : p = left ∨ p = c ∨ p = d := by
  have isComma : (g p).kI = true ∧ (g p).dataI = cK28_5 := ⟨real.1, real.2.1⟩
  have notBehind {q : Nat} (isData : (g (q + 1)).kI = false) : p ≠ q + 1 := by
    rintro rfl
    rw [isData] at isComma
    cases isComma.1
  have notWithin {q r : Nat} (gap : Gap g q r) (after : q + 2 ≤ p) : r ≤ p := by
    by_contra before
    exact (gap.2.2 p after (by omega)).2 isComma
  have behindLeft := notBehind second.1.2.1
  have behindSecond := notBehind third.1.2.1
  have behindThird := notBehind data
  have upToSecond := notWithin second.1
  have upToThird := notWithin third.1
  omega

theorem Commas.places {c d p₁ p₂ p₃ : Nat} (commas : Commas g left (d + 2) p₁ p₂ p₃) (data : (g (d + 1)).kI = false)
    (third : Next g c d) (second : Next g left c) : p₁ = left ∧ p₂ = c ∧ p₃ = d := by
  have order₁ := second.1.1
  have order₂ := third.1.1
  have before := commas.second
  have behind := commas.third
  have seen := commas.seen
  have inside := commas.first
  have one := taken_of_real data third second inside (by omega) commas.commas.1
  have two := taken_of_real data third second (by omega) (by omega) commas.commas.2.1
  have three := taken_of_real data third second (by omega) seen commas.commas.2.2
  omega

theorem commas_iff {c d : Nat} (data : (g (d + 1)).kI = false) (third : Next g c d) (second : Next g left c)
    (comma : (g left).comma = true) :
    (∃ p₁ p₂ p₃, Commas g left (d + 2) p₁ p₂ p₃) ↔
      (((First g left ∧ Follows g left) ∧ (g c).kI = true) ∧ Follows g c) ∧ (g d).kI = true := by
  have order₁ := second.1.1
  have order₂ := third.1.1
  constructor
  · rintro ⟨p₁, p₂, p₃, commas⟩
    obtain ⟨rfl, rfl, rfl⟩ := commas.places data third second
    exact ⟨⟨⟨⟨⟨commas.commas.1.1, commas.commas.1.2.2⟩, (commas.clean (p₁ + 1) (by omega) (by omega)).1⟩,
      commas.commas.2.1.1⟩, (commas.clean (p₂ + 1) (by omega) (by omega)).1⟩, commas.commas.2.2.1⟩
  · rintro ⟨⟨⟨⟨first, follows⟩, real₂⟩, follows₂⟩, real₃⟩
    refine ⟨left, c, d, le_rfl, by omega, by omega, by omega, ⟨⟨first.1, (comma_iff _).1 comma, first.2⟩,
      ⟨real₂, (comma_iff _).1 second.2.2.1, second.2.2.2⟩, ⟨real₃, (comma_iff _).1 third.2.2.1, third.2.2.2⟩⟩,
      ⟨second.1.2.1, third.1.2.1, data⟩, ⟨second.2.1, third.2.1⟩, fun m after before => ?_⟩
    have plain {q : Nat} (isData : (g (q + 1)).kI = false) : ¬ ((g (q + 1)).kI = true ∧ (g (q + 1)).dataI = cK28_5) :=
      fun both => by rw [isData] at both; cases both.1
    -- the places between the first comma and the third, from left to right
    rcases (by omega : m = left + 1 ∨ left + 2 ≤ m ∧ m < c ∨ m = c ∨ m = c + 1 ∨ c + 2 ≤ m) with
      rfl | within | rfl | rfl | later
    · exact ⟨follows, fun _ => plain second.1.2.1⟩
    · have clean := second.1.2.2 m within.1 within.2
      exact ⟨clean.1, fun _ => clean.2⟩
    · exact ⟨second.2.2.2, fun odd => absurd second.2.1 (by omega)⟩
    · exact ⟨follows₂, fun _ => plain third.1.2.1⟩
    · have clean := third.1.2.2 m later before
      exact ⟨clean.1, fun _ => clean.2⟩

/-- The commas, and `even_o` counted from the first of them. -/
def Acquired (g : Nat → In) (left t : Nat) : Prop := ∃ p₁ p₂ p₃, Commas g left t p₁ p₂ p₃ ∧ EvenFrom g t p₁

include uncalibrated in
/-- `synced_o` has risen for real commas if and only if all steps behind `left` were sound. -/
theorem acquired_iff_sound (rises : Rises g t) :
    ∃ left, LeftAt g left t ∧ (Acquired g left t ↔ Met g left t) := by
  obtain ⟨left, c, d, leftAt, rfl, data, third, second, comma, met⟩ := rises_since uncalibrated rises
  refine ⟨left, leftAt, ?_⟩
  have even := even_from uncalibrated leftAt rises
  rw [met, ← commas_iff data third second comma]
  constructor
  · rintro ⟨p₁, p₂, p₃, commas, _⟩
    exact ⟨p₁, p₂, p₃, commas⟩
  · rintro ⟨p₁, p₂, p₃, commas⟩
    obtain ⟨rfl, _⟩ := commas.places data third second
    exact ⟨p₁, p₂, p₃, commas, even⟩

end Runs

/-- K28.5 bytes and data bytes by turns. -/
def commaStream (kI : Bool) (t : Nat) : In :=
  if t % 2 = 0 then { dataI := cK28_5, kI := kI } else { dataI := 0, kI := false }

theorem commaStream_uncalibrated (kI : Bool) (t : Nat) : (commaStream kI t).calI = false := by
  rw [commaStream]
  split <;> rfl

theorem acquired_iff_sound_commas : Rises (commaStream true) 6 ∧
    ∃ left, LeftAt (commaStream true) left 6 ∧ (Acquired (commaStream true) left 6 ↔ Met (commaStream true) left 6) :=
  ⟨by constructor <;> rfl, acquired_iff_sound (commaStream_uncalibrated true) (by constructor <;> rfl)⟩

/-- Data bytes of value 0xBC synchronise the port. -/
theorem synced_by_data : ¬ ∀ g : Nat → In, (∀ t, (g t).calI = false) → ∀ t, Rises g t →
    ∃ left, LeftAt g left t ∧ Acquired g left t := by
  intro claim
  obtain ⟨left, _, p₁, _, _, commas, _⟩ :=
    claim (commaStream false) (commaStream_uncalibrated false) 6 (by constructor <;> rfl)
  have noComma : (commaStream false p₁).kI = false := by
    rw [commaStream]
    split <;> rfl
  have real := commas.commas.1.1
  rw [noComma] at real
  cases real

end WrCores.Endpoint.SyncDetect
