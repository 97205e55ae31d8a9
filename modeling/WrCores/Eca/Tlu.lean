import WrCores.Eca.TluFsm

/-!
The clock domain of the inputs of eca_tlu.vhd, with the table of events and the settings of the inputs as they are and
every input enabled. The lowest input with a strobe is chosen in each cycle; its event comes out of the memory and its
number out of a register in the next, which is where `S_OUTPUT` takes its edge and acknowledges it.
-/

namespace WrCores.Eca.Tlu

open Clocked

inductive PushState
  | idle
  | output
  | wait
  deriving DecidableEq, Repr

structure In (inputs : Nat) where
  aTimeI : BitVec 64
  aGpioI : Fin inputs → BitVec 8
  aStallI : Bool

structure Config (inputs stable : Nat) where
  /-- The memory of the events by its addresses. -/
  events : Nat → BitVec 64
  stables : Fin inputs → BitVec stable

@[ext] structure State (inputs stable history : Nat) where
  fsms : Fin inputs → TluFsm.State 8 stable history
  raState : PushState
  raStb : Bool
  raMux : BitVec (fEcaLog2 inputs)
  saEvent : BitVec 64
  raEvent : BitVec 64
  raTime : BitVec 64

variable {inputs stable history : Nat}

/-- What is latched has no reset. -/
structure AfterReset (s : State inputs stable history) : Prop where
  fsms : ∀ k, TluFsm.AfterReset (s.fsms k)
  raState : s.raState = .idle
  raStb : s.raStb = false

/-- The event with the polarity of the edge for its bit 0. -/
def edgeEvent (event : BitVec 64) (polarity : Bool) : BitVec 64 := event.extractLsb' 1 63 ++ BitVec.ofBool polarity

namespace State

variable (s : State inputs stable history)

def saStbs : BitVec inputs := BitVec.ofNat inputs (Nat.ofBits fun k => (s.fsms k).rStb)

def saMux : BitVec (fEcaLog2 inputs) :=
  BitVec.ofNat _ (fEca1hotDecode (s.saStbs &&& (~~~s.saStbs + 1)))

def saStb : Bool := fEcaOr s.saStbs

def saAcks (k : Fin inputs) : Bool := s.raState == .output && fEcaEq s.raMux (BitVec.ofNat _ k)

variable [NeZero inputs]

/-- The input that `ra_mux` names. -/
def picked : TluFsm.State 8 stable history := s.fsms (Fin.ofNat inputs s.raMux.toNat)

def nextState (aStallI : Bool) : PushState :=
  match s.raState with
  | .idle => if s.saStb then .output else .idle
  | .output => .wait
  | .wait => if aStallI then .wait else if s.saStb then .output else .idle

def nextStb (aStallI : Bool) : Bool :=
  match s.raState with
  | .idle => s.raStb
  | .output => true
  | .wait => s.raStb && aStallI

def step (c : Config inputs stable) (i : In inputs) : State inputs stable history where
  fsms k := (s.fsms k).step (c.stables k) ⟨true, i.aTimeI, i.aGpioI k, s.saAcks k⟩
  raState := s.nextState i.aStallI
  raStb := s.nextStb i.aStallI
  raMux := s.saMux
  saEvent := c.events s.saMux.toNat
  raEvent := if s.raState = .output then edgeEvent s.saEvent s.picked.rEdge else s.raEvent
  raTime := if s.raState = .output then s.picked.rTime else s.raTime

end State

/-! ### The choice -/

section Choice

variable {s : State inputs stable history}

theorem saStbs_bit (k : Fin inputs) : s.saStbs.getLsbD k = (s.fsms k).rStb := by
  rw [State.saStbs, BitVec.getLsbD_ofNat, Nat.testBit_ofBits_lt _ _ k.isLt, decide_eq_true k.isLt, Bool.true_and]

theorem inputs_le : inputs ≤ 2 ^ fEcaLog2 inputs := Msi.go_bound inputs inputs le_rfl

theorem index_toNat (k : Fin inputs) : (BitVec.ofNat (fEcaLog2 inputs) k).toNat = k := by
  rw [BitVec.toNat_ofNat, Nat.mod_eq_of_lt (k.isLt.trans_le inputs_le)]

/-- The lowest of the inputs that ask. -/
def Lowest (s : State inputs stable history) (k : Fin inputs) : Prop :=
  (s.fsms k).rStb = true ∧ ∀ j < k, (s.fsms j).rStb = false

theorem exists_lowest {k : Fin inputs} (asks : (s.fsms k).rStb = true) : ∃ j, Lowest s j := by
  obtain ⟨j, here, least⟩ := WellFounded.has_min (wellFounded_lt (α := Fin inputs))
    {j | (s.fsms j).rStb = true} ⟨k, asks⟩
  exact ⟨j, here, fun i less => by simpa using fun now => least i now less⟩

theorem saMux_lowest {k : Fin inputs} (lowest : Lowest s k) : s.saMux.toNat = k := by
  have found : (List.range inputs).find? (fun j => s.saStbs.getLsbD j) = some k.val := by
    rw [List.find?_range_eq_some]
    refine ⟨by rw [saStbs_bit]; exact lowest.1, List.mem_range.2 k.isLt, fun j less => ?_⟩
    have below := lowest.2 ⟨j, less.trans k.isLt⟩ less
    rw [← saStbs_bit] at below
    simpa using below
  rw [State.saMux, Msi.lowest_bit, found, Option.elim_some, Msi.decode_twoPow k.isLt, index_toNat]

theorem saStb_iff [NeZero inputs] : s.saStb = true ↔ ∃ k, (s.fsms k).rStb = true := by
  rw [State.saStb, fEcaOr_eq (NeZero.pos inputs), decide_eq_true_iff]
  constructor
  · intro some
    by_contra none
    refine some (BitVec.eq_of_getLsbD_eq fun k inside => ?_)
    rw [saStbs_bit ⟨k, inside⟩]
    simpa using fun now => none ⟨⟨k, inside⟩, now⟩
  · rintro ⟨k, asks⟩ zero
    rw [← saStbs_bit, zero] at asks
    simp at asks

theorem saAcks_iff (two : 2 ≤ inputs) (k : Fin inputs) :
    s.saAcks k = true ↔ s.raState = .output ∧ s.raMux.toNat = k := by
  have bits : 0 < fEcaLog2 inputs := by
    by_contra none
    have wide : inputs ≤ 2 ^ fEcaLog2 inputs := inputs_le
    rw [Nat.eq_zero_of_not_pos none] at wide
    omega
  rw [State.saAcks, fEcaEq_eq, decide_eq_true bits, Bool.true_and, Bool.and_eq_true, beq_iff_eq, decide_eq_true_iff,
    ← BitVec.toNat_inj, index_toNat]

end Choice

/-! ### Edges on the way -/

section Run

variable [NeZero inputs] (c : Config inputs stable) (s : State inputs stable history) (i : Nat → In inputs)

def stateAt (u : Nat) : State inputs stable history := run (fun s i => s.step c i) s (upTo i u)

/-- An edge of the input `k` is recorded in the cycle `u`. -/
def Records (k : Fin inputs) (u : Nat) : Prop := ((stateAt c s i u).fsms k).records (c.stables k) = true

def Serves (k : Fin inputs) (u : Nat) : Prop := (stateAt c s i u).saAcks k = true

/-- An item leaves `a_stream_o`. -/
def Taken (u : Nat) : Prop := (stateAt c s i u).raStb = true ∧ (i u).aStallI = false

/-- In this cycle the arbiter chooses, if there is a choice. -/
def Chooses (u : Nat) : Prop :=
  (stateAt c s i u).raState = .idle ∨ (stateAt c s i u).raState = .wait ∧ (i u).aStallI = false

/-- The edge of the input `k` that was recorded in the cycle `r` is the last before the cycle `u`, and not served yet. -/
def Waits (k : Fin inputs) (r u : Nat) : Prop :=
  Records c s i k r ∧ r < u ∧ ∀ t, r < t → t < u → ¬ Records c s i k t ∧ ¬ Serves c s i k t

/-- What is on the stream in the cycle `u` is the edge of the input `k` that was recorded in the cycle `r`. -/
def Carries (k : Fin inputs) (r u : Nat) : Prop :=
  (stateAt c s i u).raEvent = edgeEvent (c.events k) ((stateAt c s i (r + 1)).fsms k).rEdge ∧
    (stateAt c s i u).raTime = ((stateAt c s i (r + 1)).fsms k).rTime

/-- That edge is served in the cycle `t` and taken in the cycle `u`, the first behind that without a stall. -/
def Delivers (k : Fin inputs) (r t u : Nat) : Prop :=
  Waits c s i k r t ∧ Serves c s i k t ∧ t < u ∧ (∀ v, t < v → v < u → (i v).aStallI = true) ∧ Taken c s i u ∧
    Carries c s i k r u

/-- A later edge of the input is recorded before that one is served. -/
def Superseded (k : Fin inputs) (r : Nat) : Prop :=
  ∃ t, r < t ∧ Records c s i k t ∧ ∀ v, r < v → v ≤ t → ¬ Serves c s i k v

variable {c s i}

theorem stateAt_succ (u : Nat) : stateAt c s i (u + 1) = (stateAt c s i u).step c (i u) := by
  rw [stateAt, upTo_snoc, run_append]
  rfl

theorem waits_succ (k : Fin inputs) (r u : Nat) : Waits c s i k r (u + 1) ↔
    r = u ∧ Records c s i k u ∨ Waits c s i k r u ∧ ¬ Records c s i k u ∧ ¬ Serves c s i k u := by
  constructor
  · rintro ⟨recorded, before, quiet⟩
    rcases Nat.lt_succ_iff_lt_or_eq.mp before with old | rfl
    · exact .inr ⟨⟨recorded, old, fun t behind less => quiet t behind (less.trans u.lt_succ_self)⟩,
        quiet u old u.lt_succ_self⟩
    · exact .inl ⟨rfl, recorded⟩
  · rintro (⟨rfl, recorded⟩ | ⟨⟨recorded, before, quiet⟩, here⟩)
    · exact ⟨recorded, r.lt_succ_self, fun t behind less => absurd less (by omega)⟩
    · refine ⟨recorded, before.trans u.lt_succ_self, fun t behind less => ?_⟩
      rcases Nat.lt_succ_iff_lt_or_eq.mp less with old | rfl
      · exact quiet t behind old
      · exact here

/-- `r_stb` is the edge that waits, with its polarity and its time. -/
theorem rStb_iff (reset : AfterReset s) (k : Fin inputs) (u : Nat) :
    (((stateAt c s i u).fsms k).rStb = true ↔ ∃ r, Waits c s i k r u) ∧
      ∀ r, Waits c s i k r u → ((stateAt c s i u).fsms k).rEdge = ((stateAt c s i (r + 1)).fsms k).rEdge ∧
        ((stateAt c s i u).fsms k).rTime = ((stateAt c s i (r + 1)).fsms k).rTime := by
  induction u with
  | zero =>
      have none (r : Nat) : ¬ Waits c s i k r 0 := fun waits => absurd waits.2.1 r.not_lt_zero
      have silent : ((stateAt c s i 0).fsms k).rStb = false := (reset.fsms k).rStb
      exact ⟨by simp [silent, none], fun r waits => absurd waits (none r)⟩
  | succ u ih =>
      have next : (stateAt c s i (u + 1)).fsms k = ((stateAt c s i u).fsms k).step (c.stables k)
          ⟨true, (i u).aTimeI, (i u).aGpioI k, (stateAt c s i u).saAcks k⟩ := by
        rw [stateAt_succ]
        rfl
      simp only [waits_succ]
      cases records : ((stateAt c s i u).fsms k).records (c.stables k) with
      | true =>
          have now : Records c s i k u := records
          refine ⟨by simp [next, TluFsm.State.step, records, now], ?_⟩
          rintro r (⟨rfl, -⟩ | ⟨-, none, -⟩)
          · exact ⟨rfl, rfl⟩
          · exact absurd now none
      | false =>
          have none : ¬ Records c s i k u := by simp [Records, records]
          cases acks : (stateAt c s i u).saAcks k with
          | true =>
              have served : Serves c s i k u := acks
              simp [next, TluFsm.State.step, records, acks, none, served]
          | false =>
              have unserved : ¬ Serves c s i k u := by simp [Serves, acks]
              simpa [next, TluFsm.State.step, records, acks, none, unserved] using ih

/-! ### The output -/

/-- What the states of the arbiter mean before the cycle `u`. -/
def Pushes (c : Config inputs stable) (s : State inputs stable history) (i : Nat → In inputs) (u : Nat) : Prop :=
  match (stateAt c s i u).raState with
  | .idle => (stateAt c s i u).raStb = false
  | .output => (stateAt c s i u).raStb = false ∧ ∃ k : Fin inputs, (stateAt c s i u).raMux.toNat = k ∧
      ((stateAt c s i u).fsms k).rStb = true ∧ (stateAt c s i u).saEvent = c.events k
  | .wait => (stateAt c s i u).raStb = true ∧ ∃ k r t, Waits c s i k r t ∧ Serves c s i k t ∧ t < u ∧
      (∀ v, t < v → v < u → (i v).aStallI = true) ∧ Carries c s i k r u

theorem fsm_succ (k : Fin inputs) (u : Nat) :
    (stateAt c s i (u + 1)).fsms k = ((stateAt c s i u).fsms k).step (c.stables k)
      ⟨true, (i u).aTimeI, (i u).aGpioI k, (stateAt c s i u).saAcks k⟩ := by
  rw [stateAt_succ]
  rfl

/-- The lowest input that asks is the one that `S_OUTPUT` takes, and it still asks there. -/
theorem chosen {k : Fin inputs} {u : Nat} (choosing : (stateAt c s i u).raState ≠ .output)
    (lowest : Lowest (stateAt c s i u) k) :
    (stateAt c s i (u + 1)).raMux.toNat = k ∧ ((stateAt c s i (u + 1)).fsms k).rStb = true ∧
      (stateAt c s i (u + 1)).saEvent = c.events k := by
  have number := saMux_lowest lowest
  have unserved : (stateAt c s i u).saAcks k = false := by simp [State.saAcks, choosing]
  refine ⟨?_, ?_, ?_⟩
  · rw [stateAt_succ]
    exact number
  · rw [fsm_succ, unserved]
    cases records : ((stateAt c s i u).fsms k).records (c.stables k) <;>
      simp [TluFsm.State.step, records, lowest.1]
  · rw [stateAt_succ]
    exact congrArg c.events number

theorem pushes_of_choice {u : Nat} (choosing : (stateAt c s i u).raState ≠ .output)
    (empty : (stateAt c s i (u + 1)).raStb = false)
    (next : (stateAt c s i (u + 1)).raState = if (stateAt c s i u).saStb then .output else .idle) :
    Pushes c s i (u + 1) := by
  cases asks : (stateAt c s i u).saStb with
  | false =>
      rw [asks, if_neg Bool.false_ne_true] at next
      rw [Pushes, next]
      exact empty
  | true =>
      rw [asks, if_pos rfl] at next
      obtain ⟨j, here⟩ := saStb_iff.1 asks
      obtain ⟨k, lowest⟩ := exists_lowest here
      rw [Pushes, next]
      exact ⟨empty, k, chosen choosing lowest⟩

theorem pushes_run (reset : AfterReset s) (two : 2 ≤ inputs) (u : Nat) : Pushes c s i u := by
  induction u with
  | zero =>
      have idle : (stateAt c s i 0).raState = .idle := reset.raState
      rw [Pushes, idle]
      exact reset.raStb
  | succ u ih =>
      rw [Pushes] at ih
      cases state : (stateAt c s i u).raState with
      | idle =>
          rw [state] at ih
          refine pushes_of_choice (by simp [state]) ?_ ?_
          · simpa [stateAt_succ, State.step, State.nextStb, state] using ih
          · simp [stateAt_succ, State.step, State.nextState, state]
      | output =>
          rw [state] at ih
          obtain ⟨-, k, number, asks, event⟩ := ih
          obtain ⟨r, waits⟩ := (rStb_iff reset k u).1.1 asks
          obtain ⟨polarity, time⟩ := (rStb_iff reset k u).2 r waits
          have served : Serves c s i k u := (saAcks_iff two k).2 ⟨state, number⟩
          have picked : (stateAt c s i u).picked = (stateAt c s i u).fsms k := by
            rw [State.picked, number, Fin.ofNat_val_eq_self]
          have next : (stateAt c s i (u + 1)).raState = .wait := by
            simp [stateAt_succ, State.step, State.nextState, state]
          rw [Pushes, next]
          refine ⟨by simp [stateAt_succ, State.step, State.nextStb, state], k, r, u, waits, served, u.lt_succ_self,
            fun v behind before => absurd before (by omega), ?_, ?_⟩
          · rw [← polarity, ← event, ← picked]
            simp [stateAt_succ, State.step, state]
          · rw [← time, ← picked]
            simp [stateAt_succ, State.step, state]
      | wait =>
          rw [state] at ih
          obtain ⟨strobe, k, r, t, waits, served, before, stalled, event, time⟩ := ih
          cases stall : (i u).aStallI with
          | false =>
              refine pushes_of_choice (by simp [state]) ?_ ?_
              · simp [stateAt_succ, State.step, State.nextStb, state, stall]
              · simp [stateAt_succ, State.step, State.nextState, state, stall]
          | true =>
              have next : (stateAt c s i (u + 1)).raState = .wait := by
                simp [stateAt_succ, State.step, State.nextState, state, stall]
              rw [Pushes, next]
              refine ⟨?_, k, r, t, waits, served, before.trans u.lt_succ_self, fun v behind less => ?_, ?_, ?_⟩
              · simp [stateAt_succ, State.step, State.nextStb, state, strobe, stall]
              · rcases Nat.lt_succ_iff_lt_or_eq.mp less with old | rfl
                · exact stalled v behind old
                · exact stall
              · simpa [stateAt_succ, State.step, state] using event
              · simpa [stateAt_succ, State.step, state] using time

/-- From a served edge on the stream is not free until it is not stalled. -/
theorem wait_of_serves (two : 2 ≤ inputs) {k : Fin inputs} {t u : Nat} (served : Serves c s i k t) (behind : t < u)
    (stalled : ∀ v, t < v → v < u → (i v).aStallI = true) :
    (stateAt c s i u).raState = .wait := by
  induction u, behind using Nat.le_induction with
  | base =>
      have state := ((saAcks_iff two k).1 served).1
      simp [stateAt_succ, State.step, State.nextState, state]
  | succ u later ih =>
      have state := ih fun v behind before => stalled v behind (before.trans u.lt_succ_self)
      simp [stateAt_succ, State.step, State.nextState, state, stalled u later u.lt_succ_self]

theorem serves_unique (two : 2 ≤ inputs) {k j : Fin inputs} {t : Nat} (one : Serves c s i k t)
    (other : Serves c s i j t) : k = j :=
  Fin.ext ((((saAcks_iff two k).1 one).2).symm.trans ((saAcks_iff two j).1 other).2)

/-- Only one edge was served last before the cycle `u` with nothing but stalls since. -/
theorem serve_unique (two : 2 ≤ inputs) {k j : Fin inputs} {t v u : Nat} (one : Serves c s i k t)
    (other : Serves c s i j v) (before : t < u ∧ v < u) (stalled : ∀ x, t < x → x < u → (i x).aStallI = true)
    (stalled' : ∀ x, v < x → x < u → (i x).aStallI = true) : t = v ∧ k = j := by
  have apart {a b : Nat} {l m : Fin inputs} (first : Serves c s i l a) (second : Serves c s i m b) (later : b < u)
      (held : ∀ x, a < x → x < u → (i x).aStallI = true) : ¬ a < b := by
    intro less
    have waiting := wait_of_serves two first less fun x behind early => held x behind (early.trans later)
    rw [((saAcks_iff two m).1 second).1] at waiting
    exact PushState.noConfusion waiting
  have left := apart one other before.2 stalled
  have right := apart other one before.1 stalled'
  obtain rfl : t = v := by omega
  exact ⟨rfl, serves_unique two one other⟩

theorem waits_unique {k : Fin inputs} {r q u : Nat} (one : Waits c s i k r u) (other : Waits c s i k q u) : r = q :=
    by
  rcases Nat.lt_trichotomy r q with less | same | more
  · exact absurd other.1 (one.2.2 q less other.2.1).1
  · exact same
  · exact absurd one.1 (other.2.2 r more one.2.1).1

/-- A served edge goes out in the first cycle without a stall. -/
theorem delivers_of_serves (reset : AfterReset s) (two : 2 ≤ inputs) {k : Fin inputs} {r t : Nat}
    (waits : Waits c s i k r t) (served : Serves c s i k t) :
    (∃ u, Delivers c s i k r t u) ∨ ∀ u > t, (i u).aStallI = true := by
  by_cases free : ∃ u, t < u ∧ (i u).aStallI = false
  · obtain ⟨u, behind, free, stalled⟩ : ∃ u, t < u ∧ (i u).aStallI = false ∧
        ∀ v, t < v → v < u → (i v).aStallI = true := by
      classical
      refine ⟨Nat.find free, (Nat.find_spec free).1, (Nat.find_spec free).2, fun v behind less => ?_⟩
      simpa [behind] using Nat.find_min free less
    have state := wait_of_serves two served behind stalled
    have pushes := pushes_run (i := i) (c := c) reset two u
    rw [Pushes, state] at pushes
    obtain ⟨strobe, j, q, v, waits', served', before, stalled', carries⟩ := pushes
    obtain ⟨rfl, rfl⟩ := serve_unique two served served' ⟨behind, before⟩ stalled stalled'
    obtain rfl := waits_unique waits waits'
    exact .inl ⟨u, waits, served, behind, stalled, ⟨strobe, free⟩, carries⟩
  · refine .inr fun u behind => ?_
    by_contra stall
    exact free ⟨u, behind, by simpa using stall⟩

theorem served_of_choice (two : 2 ≤ inputs) {k : Fin inputs} {u : Nat} (chooses : Chooses c s i u)
    (lowest : Lowest (stateAt c s i u) k) : Serves c s i k (u + 1) := by
  have asks : (stateAt c s i u).saStb = true := saStb_iff.2 ⟨k, lowest.1⟩
  have choosing : (stateAt c s i u).raState ≠ .output := by
    rcases chooses with idle | ⟨wait, -⟩
    · simp [idle]
    · simp [wait]
  have next : (stateAt c s i (u + 1)).raState = .output := by
    rcases chooses with idle | ⟨wait, free⟩
    · simp [stateAt_succ, State.step, State.nextState, idle, asks]
    · simp [stateAt_succ, State.step, State.nextState, wait, free, asks]
  exact (saAcks_iff two k).2 ⟨next, (chosen choosing lowest).1⟩

/-- An edge that no other edge of its input supersedes is served at some time, or in every choice an input with a lower
number asks. -/
theorem fate (reset : AfterReset s) (two : 2 ≤ inputs) {k : Fin inputs} {r : Nat} (recorded : Records c s i k r) :
    Superseded c s i k r ∨ (∃ t, Waits c s i k r t ∧ Serves c s i k t) ∨
      ∀ t > r, ¬ Records c s i k t ∧ ¬ Serves c s i k t ∧
        (Chooses c s i t → ∃ j < k, ((stateAt c s i t).fsms j).rStb = true) := by
  by_cases last : ∃ t, r < t ∧ (Records c s i k t ∨ Serves c s i k t)
  · obtain ⟨t, behind, event, first⟩ : ∃ t, r < t ∧ (Records c s i k t ∨ Serves c s i k t) ∧
        ∀ v, r < v → v < t → ¬ (Records c s i k v ∨ Serves c s i k v) := by
      classical
      refine ⟨Nat.find last, (Nat.find_spec last).1, (Nat.find_spec last).2, fun v behind less now => ?_⟩
      exact Nat.find_min last less ⟨behind, now⟩
    have waits : Waits c s i k r t := ⟨recorded, behind, fun v later before => not_or.mp (first v later before)⟩
    by_cases served : Serves c s i k t
    · exact .inr (.inl ⟨t, waits, served⟩)
    · refine .inl ⟨t, behind, event.resolve_right served, fun v later before => ?_⟩
      rcases Nat.lt_or_eq_of_le before with less | rfl
      · exact (waits.2.2 v later less).2
      · exact served
  · simp only [not_exists, not_and, not_or] at last
    refine .inr (.inr fun t behind => ⟨(last t behind).1, (last t behind).2, fun chooses => ?_⟩)
    have waits : Waits c s i k r t := ⟨recorded, behind, fun v later _ => last v later⟩
    have asks := ((rStb_iff reset k t).1).2 ⟨r, waits⟩
    obtain ⟨j, lowest⟩ := exists_lowest asks
    refine ⟨j, ?_, lowest.1⟩
    rcases lt_trichotomy j k with lower | rfl | higher
    · exact lower
    · exact absurd (served_of_choice two chooses lowest) (last (t + 1) (by omega)).2
    · exact absurd asks (by simp [lowest.2 k higher])

/-- What becomes of the edges and where the items come from. -/
structure Faithful (c : Config inputs stable) (s : State inputs stable history) (i : Nat → In inputs) : Prop where
  carries : ∀ u, Taken c s i u → ∃ k r t, Delivers c s i k r t u
  one : ∀ k r t j q v u, Delivers c s i k r t u → Delivers c s i j q v u → k = j ∧ r = q
  once : ∀ k r t u v w, Delivers c s i k r t u → Delivers c s i k r v w → u = w
  superseded : ∀ k r, Superseded c s i k r → ∀ t u, ¬ Delivers c s i k r t u
  fate : ∀ k r, Records c s i k r → Superseded c s i k r ∨
    (∃ t, Waits c s i k r t ∧ Serves c s i k t ∧
      ((∃ u, Delivers c s i k r t u) ∨ ∀ u > t, (i u).aStallI = true)) ∨
    ∀ t > r, ¬ Records c s i k t ∧ ¬ Serves c s i k t ∧
      (Chooses c s i t → ∃ j < k, ((stateAt c s i t).fsms j).rStb = true)

theorem edges_served (reset : AfterReset s) (two : 2 ≤ inputs) : Faithful c s i where
  carries := by
    rintro u ⟨strobe, free⟩
    have pushes := pushes_run (i := i) (c := c) reset two u
    rw [Pushes] at pushes
    cases state : (stateAt c s i u).raState with
    | idle =>
        rw [state] at pushes
        exact absurd strobe (by simp [pushes])
    | output =>
        rw [state] at pushes
        exact absurd strobe (by simp [pushes.1])
    | wait =>
        rw [state] at pushes
        obtain ⟨-, k, r, t, waits, served, before, stalled, carries⟩ := pushes
        exact ⟨k, r, t, waits, served, before, stalled, ⟨strobe, free⟩, carries⟩
  one := by
    rintro k r t j q v u ⟨waits, served, before, stalled, -⟩ ⟨waits', served', before', stalled', -⟩
    obtain ⟨rfl, rfl⟩ := serve_unique two served served' ⟨before, before'⟩ stalled stalled'
    exact ⟨rfl, waits_unique waits waits'⟩
  once := by
    rintro k r t u v w ⟨waits, served, before, stalled, taken, -⟩ ⟨waits', served', before', stalled', taken', -⟩
    obtain rfl : t = v := by
      rcases Nat.lt_trichotomy t v with less | same | more
      · exact absurd served (waits'.2.2 t waits.2.1 less).2
      · exact same
      · exact absurd served' (waits.2.2 v waits'.2.1 more).2
    rcases Nat.lt_trichotomy u w with less | same | more
    · exact absurd (stalled' u before less) (by simp [taken.2])
    · exact same
    · exact absurd (stalled w before' more) (by simp [taken'.2])
  superseded := by
    rintro k r ⟨v, behind, again, unserved⟩ t u ⟨waits, served, -⟩
    rcases Nat.lt_or_ge v t with early | late
    · exact (waits.2.2 v behind early).1 again
    · exact unserved t waits.2.1 late served
  fate := by
    intro k r recorded
    rcases fate reset two recorded with lost | ⟨t, waits, served⟩ | kept
    · exact .inl lost
    · exact .inr (.inl ⟨t, waits, served, delivers_of_serves reset two waits served⟩)
    · exact .inr (.inr kept)

end Run

/-! ### A low number goes first -/

def blankFsm : TluFsm.State 8 1 14 :=
  ⟨false, 0#8, 0#1, 0#_, TluFsm.cOpposedInit 8 14, false, false, false, 0#64⟩

def blank : State 3 1 14 := ⟨fun _ => blankFsm, .idle, false, 0#_, 0#64, 0#64, 0#64⟩

def config : Config 3 1 := ⟨fun k => BitVec.ofNat 64 (16 * k), fun _ => 1#1⟩

/-- Two inputs change their level every three cycles; the third has one edge, with its third word. -/
def crowded (t : Nat) : In 3 :=
  ⟨0#64, fun k =>
    TluFsm.fill (match k with | 0 => t / 3 % 2 == 1 | 1 => (t + 1) / 3 % 2 == 1 | 2 => decide (2 ≤ t)), false⟩

theorem blank_reset : AfterReset blank := ⟨fun _ => ⟨rfl, rfl, rfl, rfl, rfl, rfl, rfl⟩, rfl, rfl⟩

theorem crowded_cycle (n : Nat) (late : 12 ≤ n) : crowded (n + 6) = crowded n := by
  have first : (n + 6) / 3 % 2 = n / 3 % 2 := by omega
  have second : (n + 6 + 1) / 3 % 2 = (n + 1) / 3 % 2 := by omega
  have third : decide (2 ≤ n + 6) = decide (2 ≤ n) := decide_eq_decide.2 (by omega)
  simp only [crowded, first, second, third]

/-- The third input is never served, and an edge of it is recorded only as long as none waits. -/
theorem crowded_out :
    Throughout (fun s i => s.step config i)
      (fun s _ => s.saAcks 2 = false ∧ ((s.fsms 2).records 1#1 = true → (s.fsms 2).rStb = false)) blank crowded := by
  refine throughout_of_cycle (m := 12) (p := 6) (by decide) (by decide +kernel) crowded_cycle ?_ (by decide +kernel)
  refine State.ext (funext ?_) ?_ ?_ ?_ ?_ ?_ ?_ <;> decide +kernel

theorem crowded_faithful : Faithful config blank crowded := edges_served blank_reset (by decide)

/-- An edge of an input that is never served waits for ever. -/
theorem strobe_stays {k : Fin inputs} [NeZero inputs] {c : Config inputs stable} {s : State inputs stable history}
    {i : Nat → In inputs} (unserved : ∀ u, ¬ Serves c s i k u) {r u : Nat} (recorded : Records c s i k r)
    (later : r < u) : ((stateAt c s i u).fsms k).rStb = true := by
  have silent (u : Nat) : (stateAt c s i u).saAcks k = false := by simpa [Serves] using unserved u
  induction u, later using Nat.le_induction with
  | base =>
      have records : ((stateAt c s i r).fsms k).records (c.stables k) = true := recorded
      simp [fsm_succ, TluFsm.State.step, records]
  | succ u _ ih => simp [fsm_succ, TluFsm.State.step, silent, ih]

/-- The edge of the third input that is recorded in the cycle 5 is the last of it, and nobody gets it. -/
theorem third_starved : AfterReset blank ∧ Records config blank crowded 2 5 ∧
    ¬ Superseded config blank crowded 2 5 ∧ ∀ t u, ¬ Delivers config blank crowded 2 5 t u := by
  have always := throughout_iff.1 crowded_out
  have unserved (u : Nat) : ¬ Serves config blank crowded 2 u := by
    rw [Serves, Bool.not_eq_true]
    exact (always u).1
  have recorded : Records config blank crowded 2 5 := by
    unfold Records
    decide +kernel
  refine ⟨blank_reset, recorded, ?_, fun t _ delivers => unserved t delivers.2.1⟩
  rintro ⟨t, later, again, -⟩
  exact absurd (strobe_stays unserved recorded later) (by simp [stateAt, (always t).2 again])

end WrCores.Eca.Tlu
