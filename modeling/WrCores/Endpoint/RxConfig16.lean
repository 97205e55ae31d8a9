import WrCores.Endpoint.RxPcs16

/-!
The Config_Reg of ep_rx_pcs_16bit.vhd. `RX_CR` compares the two values before the one it takes, so it is one set behind;
and its counter stands where an error or an idle comes in another state than those that look for it. A row of equal
values is told apart by what came before it.
-/

namespace WrCores.Endpoint

open Clocked

/-- The registers behind `lcr_ready`. -/
structure Lcr where
  ready : Bool
  curVal : BitVec 16
  prevVal : BitVec 16
  finalVal : BitVec 16
  validityCntr : BitVec 2
  deriving DecidableEq, Repr

/-- What an edge is for them. -/
inductive LcrEdge where
  | set (x : BitVec 16)
  | clears
  | none
  deriving DecidableEq, Repr

def LcrEdge.isSet : LcrEdge → Bool
  | .set _ => true
  | _ => false

namespace Lcr

def next (l : Lcr) : LcrEdge → Lcr
  | .set x =>
      if l.curVal = l.prevVal then
        if l.validityCntr = 2#2 then ⟨true, x, l.curVal, l.curVal, l.validityCntr⟩
        else ⟨false, x, l.curVal, l.finalVal, l.validityCntr + 1#2⟩
      else ⟨false, x, l.curVal, l.finalVal, 0#2⟩
  | .clears => { l with ready := false, validityCntr := 0#2 }
  | .none => l

end Lcr

namespace RxFsm16

def lcr (f : RxFsm16) : Lcr := ⟨f.lcrReady, f.lcrCurVal, f.lcrPrevVal, f.lcrFinalVal, f.lcrValidityCntr⟩

end RxFsm16

/-- `an_rx_en_i` is up, in normal operation. -/
structure Listens (i : RxPcs16In) : Prop where
  rstNRx : i.rstNRx = true
  mcrPdown : i.mcrPdown = false
  anRxEn : i.anRxEn = true

namespace RxPcs16

variable (s : RxPcs16) (i : RxPcs16In)

/-- An idle, a coding error or no synchronisation. -/
def spoils : Bool :=
  s.d.err || s.d.isIdle || !i.rxSynced || (s.fsm.rxState == .cr && s.d.isK != 0b00#2)

def lcrEdge : LcrEdge :=
  match s.fsm.rxState with
  | .cr => if s.spoils i then .clears else .set (s.d.data.extractLsb' 0 8 ++ s.d.data.extractLsb' 8 8)
  | .noframe => if s.d.isIdle && i.rxSynced then .clears else .none
  | _ => .none

structure AfterReset (s : RxPcs16) : Prop where
  d : s.d = {}
  rxState : s.fsm.rxState = .noframe
  lcrReady : s.fsm.lcrReady = false
  lcrCurVal : s.fsm.lcrCurVal = 0
  lcrPrevVal : s.fsm.lcrPrevVal = 0
  lcrValidityCntr : s.fsm.lcrValidityCntr = 0

/-- An idle has a control character. -/
def Decoded (d : RxDecoded16) : Prop := d.isIdle = true → d.isK = 0b10#2

end RxPcs16

/-! ### The registers follow the edges -/

section Edge

variable {s : RxPcs16} {i : RxPcs16In}

theorem decoded_postprocess : RxPcs16.Decoded (.postprocess i) := by
  rw [RxDecoded16.postprocess]
  split_ifs with off err
  · exact fun idle => absurd idle Bool.false_ne_true
  · exact fun idle => absurd idle Bool.false_ne_true
  · intro idle
    simp only [RxDecoded16.decode, Bool.and_eq_true, beq_iff_eq] at idle
    exact idle.2

theorem noframeStep_lcr (f : RxFsm16) (d : RxDecoded16) (i : RxFsmIn) :
    (RxFsm16.noframeStep f f d i).lcr = f.lcr.next (if d.isIdle && i.rxSynced then .clears else .none) := by
  simp only [RxFsm16.noframeStep, apply_ite RxFsm16.lcr]
  cases i.rxSynced <;> cases d.isIdle <;> cases d.isLcr <;> cases d.isSpdPreamble <;> cases i.pcsFifoAlmostfull <;> rfl

theorem crStep_lcr (f : RxFsm16) (d : RxDecoded16) (i : RxFsmIn) (on : i.anRxEn = true) :
    (RxFsm16.crStep f f d i).lcr = f.lcr.next (if d.err || d.isK != 0b00#2 || !i.rxSynced then .clears
      else .set (d.data.extractLsb' 0 8 ++ d.data.extractLsb' 8 8)) := by
  simp only [RxFsm16.crStep, apply_ite RxFsm16.lcr, on]
  split_ifs <;> simp_all [RxFsm16.lcr, Lcr.next]

theorem spdPreambleStep_lcr (f : RxFsm16) (d : RxDecoded16) (i : RxFsmIn) : (f.spdPreambleStep d i).lcr = f.lcr := by
  simp only [RxFsm16.spdPreambleStep, apply_ite RxFsm16.lcr]
  split_ifs <;> rfl

theorem payloadStep_lcr (f : RxFsm16) (d : RxDecoded16) (i : RxFsmIn) : (f.payloadStep d i).lcr = f.lcr := by
  simp only [RxFsm16.payloadStep, apply_ite RxFsm16.lcr]
  split_ifs <;> rfl

theorem extendStep_lcr (f : RxFsm16) (d : RxDecoded16) (i : RxFsmIn) : (f.extendStep d i).lcr = f.lcr := by
  simp only [RxFsm16.extendStep, apply_ite RxFsm16.lcr]
  split_ifs <;> rfl

theorem fsm_listens (listens : Listens i) : (s.step i).fsm = match s.fsm.rxState with
    | .noframe => RxFsm16.noframeStep s.fsm s.fsm s.d i.toRxFsmIn
    | .cr => RxFsm16.crStep s.fsm s.fsm s.d i.toRxFsmIn
    | .spdPreamble => s.fsm.spdPreambleStep s.d i.toRxFsmIn
    | .payload => s.fsm.payloadStep s.d i.toRxFsmIn
    | .extend => s.fsm.extendStep s.d i.toRxFsmIn := by
  simp only [RxPcs16.step, RxFsm16.step, listens.rstNRx, listens.mcrPdown, listens.anRxEn]
  cases s.fsm.rxState <;> rfl

theorem lcr_step (listens : Listens i) (decoded : RxPcs16.Decoded s.d) :
    (s.step i).fsm.lcr = s.fsm.lcr.next (s.lcrEdge i) := by
  rw [fsm_listens listens]
  cases at_ : s.fsm.rxState with
  | noframe => simp only [RxPcs16.lcrEdge, at_, noframeStep_lcr]
  | cr =>
      -- an idle is not a value
      have same : s.spoils i = (s.d.err || s.d.isK != 0b00#2 || !i.rxSynced) := by
        cases idle : s.d.isIdle with
        | true => simp [RxPcs16.spoils, idle, decoded idle]
        | false =>
            simp only [RxPcs16.spoils, idle, at_]
            cases s.d.err <;> cases i.rxSynced <;> simp
      simp only [RxPcs16.lcrEdge, at_, crStep_lcr _ _ _ listens.anRxEn, same]
  | spdPreamble => simp only [RxPcs16.lcrEdge, at_, spdPreambleStep_lcr, Lcr.next]
  | payload => simp only [RxPcs16.lcrEdge, at_, payloadStep_lcr, Lcr.next]
  | extend => simp only [RxPcs16.lcrEdge, at_, extendStep_lcr, Lcr.next]

theorem spoils_of_clears (clears : s.lcrEdge i = .clears) : s.spoils i = true := by
  cases at_ : s.fsm.rxState <;> simp only [RxPcs16.lcrEdge, at_] at clears <;> try contradiction
  · split at clears
    · rename_i idle
      rw [Bool.and_eq_true] at idle
      simp [RxPcs16.spoils, idle.1]
    · contradiction
  · split at clears
    · assumption
    · contradiction

end Edge

/-! ### Rows of equal values -/

/-- The row that is coming in: its value, how many sets of it there are, whether it stands behind an interruption, and
the two values before it. -/
structure Row where
  value : BitVec 16 := 0
  count : Nat := 0
  behind : Bool := true
  last : BitVec 16 := 0
  former : BitVec 16 := 0
  deriving DecidableEq, Repr

def Row.next (r : Row) (s : RxPcs16) (i : RxPcs16In) : Row :=
  match s.lcrEdge i with
  | .set x =>
      if r.count ≠ 0 ∧ x = r.value then { r with count := r.count + 1 }
      else ⟨x, 1, r.count == 0, s.fsm.lcrCurVal, s.fsm.lcrPrevVal⟩
  | _ => if s.spoils i then { r with count := 0 } else r

def stepRow (p : RxPcs16 × Row) (i : RxPcs16In) : RxPcs16 × Row := (p.1.step i, p.2.next p.1 i)

/-- `v` has come in three consecutive sets at least. -/
def Row.Carries (r : Row) (v : BitVec 16) : Prop := r.value = v ∧ 3 ≤ r.count

/-- What the receiver may say: a value that three sets have carried, and it must say one that four have. -/
structure Validated (p : RxPcs16 × Row) (i : RxPcs16In) : Prop where
  rises : p.1.fsm.lcrReady = false → (p.1.step i).fsm.lcrReady = true →
    p.2.Carries (p.1.step i).fsm.lcrFinalVal ∨ (p.2.next p.1 i).Carries (p.1.step i).fsm.lcrFinalVal
  stands : 4 ≤ (p.2.next p.1 i).count →
    (p.1.step i).fsm.lcrReady = true ∧ (p.1.step i).fsm.lcrFinalVal = (p.2.next p.1 i).value

/-- A row comes to a fourth set only behind an interruption, with the value that came last before it; no row that has
also the value before that ends with its second set; and an interruption that clears nothing finds nothing counted. -/
structure Orderly (p : RxPcs16 × Row) (i : RxPcs16In) : Prop where
  fourth : p.1.lcrEdge i = .set p.2.value → p.2.count = 3 → p.2.behind = true ∧ p.2.last = p.2.value
  third : (p.1.lcrEdge i).isSet = true → p.1.lcrEdge i ≠ .set p.2.value → p.2.count = 2 → p.2.behind = true →
    ¬(p.2.last = p.2.value ∧ p.2.former = p.2.value)
  seen : p.1.lcrEdge i = .none → p.1.spoils i = true → p.1.fsm.lcrValidityCntr = 0#2

instance (r : Row) (v : BitVec 16) : Decidable (r.Carries v) := inferInstanceAs (Decidable (_ ∧ _))

instance (i : RxPcs16In) : Decidable (Listens i) :=
  decidable_of_iff (i.rstNRx = true ∧ i.mcrPdown = false ∧ i.anRxEn = true)
    ⟨fun ⟨a, b, c⟩ => ⟨a, b, c⟩, fun ⟨a, b, c⟩ => ⟨a, b, c⟩⟩

instance (p : RxPcs16 × Row) (i : RxPcs16In) : Decidable (Orderly p i) :=
  decidable_of_iff (_ ∧ _ ∧ _) ⟨fun ⟨a, b, c⟩ => ⟨a, b, c⟩, fun ⟨a, b, c⟩ => ⟨a, b, c⟩⟩

instance (p : RxPcs16 × Row) (i : RxPcs16In) : Decidable (Validated p i) :=
  decidable_of_iff (_ ∧ _) ⟨fun ⟨a, b⟩ => ⟨a, b⟩, fun ⟨a, b⟩ => ⟨a, b⟩⟩

/-- How far the registers are with a row. -/
structure Counted (l : Lcr) (r : Row) : Prop where
  held : l.ready = true → l.validityCntr = 2#2
  rest : r.count = 0 → l.validityCntr = 0#2
  cur : 0 < r.count → l.curVal = r.value
  prev : r.count = 1 → l.prevVal = r.last
  same : 2 ≤ r.count → l.prevVal = r.value
  first : r.count = 1 → r.behind = true → l.validityCntr = if r.last = r.former then 1#2 else 0#2
  other : r.count = 1 → r.behind = false → r.last ≠ r.value
  second : r.count = 2 → l.validityCntr =
    if r.behind = true ∧ r.last = r.value then (if r.former = r.value then 2#2 else 1#2) else 0#2
  third : r.count = 3 → r.behind = true ∧ r.last = r.value → l.validityCntr = 2#2
  fourth : 4 ≤ r.count → l.ready = true ∧ l.validityCntr = 2#2 ∧ l.finalVal = r.value

section Rows

variable {l : Lcr} {r : Row} {x : BitVec 16}

theorem next_held (held : l.ready = true → l.validityCntr = 2#2) (e : LcrEdge) :
    (l.next e).ready = true → (l.next e).validityCntr = 2#2 := by
  cases e with
  | none => exact held
  | clears => simp [Lcr.next]
  | set x =>
      simp only [Lcr.next]
      split_ifs with same two <;> simp_all

/-- The counter before a set and behind it. -/
theorem next_set_two (same : l.curVal = l.prevVal) (two : l.validityCntr = 2#2) :
    l.next (.set x) = ⟨true, x, l.curVal, l.curVal, 2#2⟩ := by
  rw [Lcr.next, if_pos same, if_pos two, two]

theorem next_set_less (same : l.curVal = l.prevVal) (less : l.validityCntr ≠ 2#2) :
    l.next (.set x) = ⟨false, x, l.curVal, l.finalVal, l.validityCntr + 1#2⟩ := by
  rw [Lcr.next, if_pos same, if_neg less]

theorem next_set_other (other : l.curVal ≠ l.prevVal) :
    l.next (.set x) = ⟨false, x, l.curVal, l.finalVal, 0#2⟩ := by
  rw [Lcr.next, if_neg other]

theorem next_set_cur : (l.next (.set x)).curVal = x := by
  simp only [Lcr.next]
  split_ifs <;> rfl

theorem next_set_prev : (l.next (.set x)).prevVal = l.curVal := by
  simp only [Lcr.next]
  split_ifs <;> rfl

/-- A set that begins a row. -/
theorem counted_begins (counted : Counted l r) (other : r.count = 0 ∨ x ≠ r.value) :
    Counted (l.next (.set x)) ⟨x, 1, r.count == 0, l.curVal, l.prevVal⟩ where
  held := next_held counted.held _
  rest := by simp
  cur := fun _ => next_set_cur
  prev := fun _ => next_set_prev
  same := by simp
  first := by
    intro _ behind
    have rest := counted.rest (by simpa using behind)
    by_cases same : l.curVal = l.prevVal
    · rw [next_set_less same (by simp [rest]), rest, if_pos same]
      rfl
    · rw [next_set_other same, if_neg same]
  other := by
    intro _ on
    have some : r.count ≠ 0 := by simpa using on
    have differs := other.resolve_left some
    rw [counted.cur (by omega)]
    exact fun same => differs same.symm
  second := by simp
  third := by simp
  fourth := by simp

/-- A set that goes on with a row. -/
theorem counted_goes_on (counted : Counted l r) (some : r.count ≠ 0)
    (fourth : r.count = 3 → r.behind = true ∧ r.last = r.value) :
    Counted (l.next (.set r.value)) { r with count := r.count + 1 } where
  held := next_held counted.held _
  rest := by simp
  cur := fun _ => next_set_cur
  prev := fun one => absurd one (by simpa using some)
  same := fun _ => by rw [next_set_prev, counted.cur (by omega)]
  first := fun one => absurd one (by simpa using some)
  other := fun one => absurd one (by simpa using some)
  second := by
    intro two
    have one : r.count = 1 := by simpa using two
    have cur := counted.cur (by omega)
    have prev := counted.prev one
    cases behind : r.behind with
    | false =>
        have other := counted.other one behind
        rw [next_set_other (by rw [cur, prev]; exact other.symm)]
        simp
    | true =>
        have first := counted.first one behind
        by_cases same : r.last = r.value
        · have less : l.validityCntr ≠ 2#2 := by
            rw [first]
            split_ifs <;> decide
          rw [next_set_less (by rw [cur, prev, same]) less, first]
          simp only [same, and_self, if_true, eq_comm]
          split_ifs <;> rfl
        · rw [next_set_other (by rw [cur, prev]; exact fun h => same h.symm)]
          simp [same]
  third := by
    intro three both
    have two : r.count = 2 := by simpa using three
    have second := counted.second two
    rw [if_pos both] at second
    have same : l.curVal = l.prevVal := by rw [counted.cur (by omega), counted.same (by omega)]
    by_cases former : r.former = r.value
    · rw [if_pos former] at second
      rw [next_set_two same second]
    · rw [if_neg former] at second
      rw [next_set_less same (by rw [second]; decide), second]
      rfl
  fourth := by
    intro four
    have three : 3 ≤ r.count := by simpa using four
    have cur := counted.cur (by omega)
    have same : l.curVal = l.prevVal := by rw [cur, counted.same (by omega)]
    have two : l.validityCntr = 2#2 := by
      rcases Nat.eq_or_lt_of_le three with exact_ | more
      · exact counted.third exact_.symm (fourth exact_.symm)
      · exact (counted.fourth more).2.1
    rw [next_set_two same two]
    exact ⟨rfl, rfl, cur⟩

end Rows

/-! ### Runs -/

section Runs

variable {p : RxPcs16 × Row} {i : RxPcs16In}

/-- The registers are where the row is. -/
structure Follows (p : RxPcs16 × Row) : Prop where
  counted : Counted p.1.fsm.lcr p.2
  decoded : RxPcs16.Decoded p.1.d

theorem counted_interrupted {l : Lcr} {r : Row} (held : l.ready = true → l.validityCntr = 2#2)
    (rest : l.validityCntr = 0#2) : Counted l { r with count := 0 } :=
  ⟨held, fun _ => rest, by simp, by simp, by simp, by simp, by simp, by simp, by simp, by simp⟩

theorem counted_step (counted : Counted p.1.fsm.lcr p.2) (orderly : Orderly p i) :
    Counted (p.1.fsm.lcr.next (p.1.lcrEdge i)) (p.2.next p.1 i) := by
  cases edge : p.1.lcrEdge i with
  | set x =>
      rw [Row.next, edge]
      dsimp only
      split
      · rename_i goes
        obtain ⟨some, rfl⟩ := goes
        exact counted_goes_on counted some (orderly.fourth edge)
      · rename_i begins
        apply counted_begins counted
        by_contra goes
        push Not at goes
        exact begins goes
  | clears =>
      rw [Row.next, edge]
      dsimp only
      rw [if_pos (spoils_of_clears edge)]
      exact counted_interrupted (next_held counted.held _) rfl
  | none =>
      rw [Row.next, edge]
      dsimp only
      split
      · rename_i spoilt
        exact counted_interrupted counted.held (orderly.seen edge spoilt)
      · exact counted

theorem follows_step (follows : Follows p) (listens : Listens i) (orderly : Orderly p i) : Follows (stepRow p i) := by
  refine ⟨?_, decoded_postprocess⟩
  rw [stepRow, lcr_step listens follows.decoded]
  exact counted_step follows.counted orderly

/-- A value becomes valid with its third set or its fourth. -/
theorem rises_carried {l : Lcr} {r r' : Row} {x : BitVec 16} (counted : Counted l r)
    (rises : (l.next (.set x)).ready = true)
    (third : x ≠ r.value → r.count = 2 → r.behind = true → ¬(r.last = r.value ∧ r.former = r.value))
    (goes : x = r.value → r.count = 2 → r'.value = r.value ∧ r'.count = 3) :
    r.Carries (l.next (.set x)).finalVal ∨ r'.Carries (l.next (.set x)).finalVal := by
  have same : l.curVal = l.prevVal := by
    by_contra other
    simp [next_set_other other] at rises
  have two : l.validityCntr = 2#2 := by
    by_contra less
    simp [next_set_less same less] at rises
  rw [next_set_two same two]
  match count : r.count with
  | 0 =>
      rw [counted.rest count] at two
      exact absurd two (by decide)
  | 1 =>
      cases behind : r.behind with
      | true =>
          rw [counted.first count behind] at two
          split_ifs at two <;> exact absurd two (by decide)
      | false =>
          have other := counted.other count behind
          rw [counted.cur (by omega), counted.prev count] at same
          exact absurd same.symm other
  | 2 =>
      have second := counted.second count
      rw [two] at second
      by_cases both : r.behind = true ∧ r.last = r.value
      · rw [if_pos both] at second
        by_cases former : r.former = r.value
        · by_cases goes_on : x = r.value
          · obtain ⟨value, three⟩ := goes goes_on count
            exact .inr ⟨by rw [value, counted.cur (by omega)], three.ge⟩
          · exact absurd ⟨both.2, former⟩ (third goes_on count both.1)
        · rw [if_neg former] at second
          exact absurd second (by decide)
      · rw [if_neg both] at second
        exact absurd second (by decide)
  | n + 3 => exact .inl ⟨(counted.cur (by omega)).symm, by omega⟩

theorem validated_of_orderly (follows : Follows p) (listens : Listens i) (orderly : Orderly p i) : Validated p i := by
  have step := lcr_step listens follows.decoded
  have ready : (p.1.step i).fsm.lcrReady = (p.1.fsm.lcr.next (p.1.lcrEdge i)).ready := congrArg Lcr.ready step
  have final : (p.1.step i).fsm.lcrFinalVal = (p.1.fsm.lcr.next (p.1.lcrEdge i)).finalVal :=
    congrArg Lcr.finalVal step
  have next := counted_step follows.counted orderly
  refine ⟨fun low high => ?_, fun four => ?_⟩
  · rw [final]
    rw [ready] at high
    cases edge : p.1.lcrEdge i with
    | set x =>
        rw [edge] at high
        apply rises_carried follows.counted high
        · exact fun other => orderly.third (by rw [edge]; rfl) (by rw [edge]; simpa using other)
        · intro same two
          simp [Row.next, edge, same, two]
    | clears =>
        rw [edge] at high
        exact absurd high Bool.false_ne_true
    | none =>
        rw [edge] at high
        exact absurd (low.symm.trans high) Bool.false_ne_true
  · rw [ready, final]
    obtain ⟨high, -, value⟩ := next.fourth four
    exact ⟨high, value⟩

end Runs

theorem config_validated (s : RxPcs16) (inputs : List RxPcs16In) (reset : s.AfterReset)
    (listens : Along stepRow (fun _ i => Listens i) (s, {}) inputs)
    (orderly : Along stepRow Orderly (s, {}) inputs) : Along stepRow Validated (s, {}) inputs := by
  have start : Follows (s, {}) := by
    refine ⟨counted_interrupted (r := {}) ?_ reset.lcrValidityCntr, ?_⟩
    · exact fun high => absurd (reset.lcrReady.symm.trans high) Bool.false_ne_true
    · rw [reset.d]
      exact fun idle => absurd idle Bool.false_ne_true
  exact (listens.and orderly).yields Follows (fun _ _ follows both => follows_step follows both.1 both.2)
    (fun _ _ follows both => validated_of_orderly follows both.1 both.2) start

/-! ### Three sets and four -/

section Four

def listening (code : Code16) : RxPcs16In :=
  { code, anRxEn := true, timestampStb := false, timestamp := 0 }

/-- A configuration ordered set with the value 01a0. -/
def configSet : List RxPcs16In := [listening ⟨cK28_5 ++ cD21_5, 0b10⟩, listening ⟨0xa001, 0b00⟩]

def idleCode : RxPcs16In := listening ⟨cK28_5 ++ cD16_2, 0b10⟩

theorem config_validated_again :
    Along stepRow Validated (RxPcs16.reset, {})
      (configSet ++ [idleCode] ++ (List.replicate 4 configSet).flatten ++ [idleCode]) :=
  config_validated RxPcs16.reset _ ⟨rfl, rfl, rfl, rfl, rfl, rfl⟩ (by decide) (by decide)

/-- Four sets right behind the reset. -/
theorem config_late : RxPcs16.reset.AfterReset ∧
    Along stepRow (fun _ i => Listens i) (RxPcs16.reset, {}) ((List.replicate 4 configSet).flatten ++ [idleCode]) ∧
    ¬Along stepRow Validated (RxPcs16.reset, {}) ((List.replicate 4 configSet).flatten ++ [idleCode]) :=
  ⟨⟨rfl, rfl, rfl, rfl, rfl, rfl⟩, by decide, by decide⟩

end Four

end WrCores.Endpoint
