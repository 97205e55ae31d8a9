import WrCores.Words.Gray

/-!
ep_timestamping_unit.vhd with its ep_ts_counter.vhd and gc_sync_ffs.vhd. The reference clock goes on by half cycles:
the edges with even numbers are rising, those with odd numbers falling. What it keeps is read by two other clocks,
whose edges come anywhere between these edges or together with one of them; there each bit is found old or new.
-/

namespace WrCores.Endpoint.TimestampingUnit

structure SyncFfs where
  sync0 : Bool
  sync1 : Bool
  sync2 : Bool
  syncedO : Bool
  npulseO : Bool
  ppulseO : Bool
  deriving DecidableEq, Repr

namespace SyncFfs

def step (s : SyncFfs) (data : Bool) : SyncFfs where
  sync0 := data
  sync1 := s.sync0
  sync2 := s.sync1
  syncedO := s.sync1
  npulseO := s.sync2 && !s.sync1
  ppulseO := !s.sync2 && s.sync1

def zero : SyncFfs := ⟨false, false, false, false, false, false⟩

end SyncFfs

/-- The generics `g_timestamp_bits_r` and `g_timestamp_bits_f` are `r` and `f`. -/
structure TsCounter (r f : Nat) where
  cntrR : BitVec r
  cntrF : BitVec f
  deriving DecidableEq, Repr

namespace TsCounter

variable {r f : Nat}

def risingCtr (gMaxValue : Nat) (c : TsCounter r f) (ppsP : Bool) : TsCounter r f :=
  { c with cntrR := if c.cntrR = BitVec.ofNat r gMaxValue ∨ ppsP = true then 0 else c.cntrR + 1 }

def fallingCtr (c : TsCounter r f) : TsCounter r f := { c with cntrF := c.cntrR.setWidth f }

end TsCounter

/-- The registers of one trigger, `tx` or `rx`. -/
structure Channel (r f : Nat) where
  syncR : SyncFfs
  syncF : SyncFfs
  syncDelay : BitVec 5
  cntrR : BitVec r
  cntrF : BitVec f
  valid : Bool
  deriving DecidableEq, Repr

namespace Channel

variable {r f : Nat} (c : Channel r f) (trigger : Bool)

def takeR (cntrR : BitVec r) (ppsValid : Bool) : Channel r f where
  syncR := c.syncR.step trigger
  syncF := c.syncF
  syncDelay := if c.syncR.ppulseO then c.syncDelay ||| 0b11110 else c.syncDelay >>> 1
  cntrR := if c.syncR.ppulseO then cntrR else c.cntrR
  cntrF := c.cntrF
  valid := if c.syncR.ppulseO then ppsValid else c.valid

def takeF (cntrF : BitVec f) : Channel r f :=
  { c with
    syncF := c.syncF.step trigger
    cntrF := if c.syncF.ppulseO then cntrF else c.cntrF }

end Channel

/-- What one edge of the reference clock finds at the inputs. -/
structure Half where
  txTrigger : Bool := false
  rxTrigger : Bool := false
  ppsCsyncP1 : Bool := false
  ppsValid : Bool := true
  deriving DecidableEq, Repr

structure Stamper (r f : Nat) where
  counter : TsCounter r f
  tx : Channel r f
  rx : Channel r f
  deriving DecidableEq, Repr

namespace Stamper

variable {r f : Nat} (gRefClockRate : Nat) (s : Stamper r f) (i : Half)

def rise : Stamper r f where
  counter := s.counter.risingCtr (gRefClockRate - 1) i.ppsCsyncP1
  tx := s.tx.takeR i.txTrigger s.counter.cntrR i.ppsValid
  rx := s.rx.takeR i.rxTrigger s.counter.cntrR i.ppsValid

def fall : Stamper r f where
  counter := s.counter.fallingCtr
  tx := s.tx.takeF i.txTrigger s.counter.cntrF
  rx := s.rx.takeF i.rxTrigger s.counter.cntrF

end Stamper

/-- Behind the first `h` edges of the reference clock. -/
def stamperAt {r f : Nat} (gRefClockRate : Nat) (inputs : Nat → Half) (start : Stamper r f) : Nat → Stamper r f
  | 0 => start
  | h + 1 =>
      if h % 2 = 0 then (stamperAt gRefClockRate inputs start h).rise gRefClockRate (inputs h)
      else (stamperAt gRefClockRate inputs start h).fall (inputs h)

/-! ### Reading -/

/-- An edge of a reading clock, behind `place` edges of the reference clock; `during` says that it comes together
with the next of them, and the rest which bits are found new then. -/
structure ReadEdge (r f : Nat) where
  place : Nat
  during : Bool := false
  fresh : Bool := false
  chosenR : BitVec r := 0
  chosenF : BitVec f := 0
  validFresh : Bool := false
  en : Bool := true

structure Reader (r f : Nat) where
  done : SyncFfs
  timestampO : BitVec (f + r)
  stbO : Bool
  validO : Bool
  deriving DecidableEq, Repr

section Reading

variable {r f : Nat}

/-- What a reading edge finds of a channel. -/
structure Found (r f : Nat) where
  syncDelay0 : Bool
  cntrR : BitVec r
  cntrF : BitVec f
  valid : Bool

def found (channel : Nat → Channel r f) (e : ReadEdge r f) : Found r f :=
  let old := channel e.place
  let new := if e.during then channel (e.place + 1) else old
  { syncDelay0 := if e.fresh then new.syncDelay.getLsbD 0 else old.syncDelay.getLsbD 0
    cntrR := Words.Gray.mixture e.chosenR old.cntrR new.cntrR
    cntrF := Words.Gray.mixture e.chosenF old.cntrF new.cntrF
    valid := if e.validFresh then new.valid else old.valid }

/-- `p_output_rx_ts`. -/
def Reader.outputRxTs (s : Reader r f) (seen : Found r f) (en : Bool) : Reader r f :=
  let next := { s with done := s.done.step seen.syncDelay0 }
  if !en then { next with stbO := false }
  else if s.done.npulseO then
    { next with stbO := true, validO := seen.valid, timestampO := seen.cntrF ++ seen.cntrR }
  else next

/-- `p_output_tx_ts`. -/
def Reader.outputTxTs (s : Reader r f) (seen : Found r f) (en : Bool) : Reader r f :=
  let next := { s with done := s.done.step seen.syncDelay0 }
  if s.done.npulseO && en then
    { next with stbO := true, validO := seen.valid, timestampO := seen.cntrF ++ seen.cntrR }
  else next

/-- Behind the first `k` edges of the reading clock. -/
def readerAt (output : Reader r f → Found r f → Bool → Reader r f) (channel : Nat → Channel r f)
    (reads : Nat → ReadEdge r f) (start : Reader r f) : Nat → Reader r f
  | 0 => start
  | k + 1 => output (readerAt output channel reads start k) (found channel (reads k)) (reads k).en

end Reading

/-! ### Triggers -/

/-- What was there `n` edges ago, and low before the first edge. -/
def back (x : Nat → Bool) (h n : Nat) : Bool := decide (n ≤ h) && x (h - n)

/-- A trigger is first seen at edge `p`. -/
def Start (x : Nat → Bool) (p : Nat) : Prop := x p = true ∧ back x p 1 = false

/-- The first rising edge that sees the trigger of `p`. -/
def firstRise (p : Nat) : Nat := p + p % 2

/-- The first falling edge that sees it. -/
def firstFall (p : Nat) : Nat := p + 1 - p % 2

/-- Between the triggers of `p` and `p'` the hand-over of the first is done: nine cycles of the reference clock, and
then four edges of the reading clock. -/
def Apart (place : Nat → Nat) (p p' : Nat) : Prop := ∃ k, p + 18 ≤ place k ∧ place (k + 3) < p'

/-- Every trigger is seen by a rising and by a falling edge, and so is the pause before it. -/
structure Triggers (x : Nat → Bool) (place : Nat → Nat) : Prop where
  long : ∀ p, Start x p → x (p + 1) = true
  low : ∀ p, Start x p → back x p 2 = false
  apart : ∀ p p', Start x p → Start x p' → p < p' → Apart place p p'

/-- The edges of a reading clock in their order. -/
def Ordered {r f : Nat} (reads : Nat → ReadEdge r f) : Prop :=
  ∀ k, (reads k).place + (if (reads k).during then 1 else 0) ≤ (reads (k + 1)).place

/-- The time of the trigger of `p`: the counter two cycles behind the first rising edge that sees it, and the low bits
of the same value, or of the value before, where a falling edge has seen it first. -/
def stampOf {r f : Nat} (counter : Nat → TsCounter r f) (p : Nat) : BitVec (f + r) :=
  let value := (counter (firstRise p + 5)).cntrR
  let preceding := (counter (firstRise p + 4)).cntrR
  if p % 2 = 0 then value.setWidth f ++ value else preceding.setWidth f ++ value

/-- A channel beside the counter of the unit. -/
structure ChannelRun {r f : Nat} (x : Nat → Bool) (counter : Nat → TsCounter r f) (ppsValid : Nat → Bool)
    (channel : Nat → Channel r f) : Prop where
  start : (channel 0).syncR = .zero ∧ (channel 0).syncF = .zero ∧ (channel 0).syncDelay = 0
  rise : ∀ h, h % 2 = 0 → channel (h + 1) = (channel h).takeR (x h) (counter h).cntrR (ppsValid h)
  fall : ∀ h, h % 2 = 1 → channel (h + 1) = (channel h).takeF (x h) (counter h).cntrF
  counted : ∀ h, h % 2 = 1 →
    (counter (h + 1)).cntrR = (counter h).cntrR ∧ (counter (h + 1)).cntrF = (counter h).cntrR.setWidth f
  copied : ∀ h, h % 2 = 0 → (counter (h + 1)).cntrF = (counter h).cntrF

/-! ### Synchronisers -/

/-- The registers of a synchroniser that has taken every `n`th of the values in `x`. -/
def shifted (n : Nat) (x : Nat → Bool) (h : Nat) : SyncFfs where
  sync0 := back x h n
  sync1 := back x h (2 * n)
  sync2 := back x h (3 * n)
  syncedO := back x h (3 * n)
  npulseO := back x h (4 * n) && !back x h (3 * n)
  ppulseO := !back x h (4 * n) && back x h (3 * n)

variable {x : Nat → Bool}

theorem back_add (h n k : Nat) : back x (h + n) (k + n) = back x h k := by
  rw [back, back, Nat.add_sub_add_right]
  simp

theorem back_self (h n : Nat) : back x (h + n) n = x h := by
  rw [back, Nat.add_sub_cancel]
  simp

theorem back_early {h n : Nat} (early : h < n) : back x h n = false := by
  rw [back, decide_eq_false (by omega), Bool.false_and]

theorem shifted_step (n h : Nat) : (shifted n x h).step (x h) = shifted n x (h + n) := by
  simp only [shifted, SyncFfs.step]
  rw [back_self, show 2 * n = n + n by omega, show 3 * n = n + n + n by omega, show 4 * n = n + n + n + n by omega]
  simp only [back_add]

theorem shifted_zero {n h : Nat} (early : h < n) : shifted n x h = .zero := by
  rw [shifted, back_early early, back_early (by omega : h < 2 * n), back_early (by omega : h < 3 * n),
    back_early (by omega : h < 4 * n)]
  rfl

/-- A synchroniser that takes a value at every `n`th edge. -/
theorem sync_shifted {s : Nat → SyncFfs} {n first : Nat} (early : first < n) (zero : s first = .zero)
    (next : ∀ k, s (first + k * n + n) = (s (first + k * n)).step (x (first + k * n))) (k : Nat) :
    s (first + k * n) = shifted n x (first + k * n) := by
  induction k with
  | zero => rw [Nat.zero_mul, Nat.add_zero, zero, shifted_zero early]
  | succ k ih => rw [Nat.succ_mul, ← Nat.add_assoc, next, ih, shifted_step]

/-! ### One channel -/

section Channel

variable {r f : Nat} {counter : Nat → TsCounter r f} {ppsValid : Nat → Bool} {channel : Nat → Channel r f}

theorem ChannelRun.syncR (runs : ChannelRun x counter ppsValid channel) {h : Nat} (even : h % 2 = 0) :
    (channel h).syncR = shifted 2 x h := by
  obtain ⟨k, rfl⟩ : ∃ k, h = 0 + k * 2 := ⟨h / 2, by omega⟩
  refine sync_shifted (s := fun h => (channel h).syncR) Nat.two_pos runs.start.1 (fun k => ?_) k
  have rise := runs.rise (0 + k * 2) (by omega)
  have fall := runs.fall (0 + k * 2 + 1) (by omega)
  simp only [fall, rise, Channel.takeF, Channel.takeR]

theorem ChannelRun.syncF (runs : ChannelRun x counter ppsValid channel) {h : Nat} (odd : h % 2 = 1) :
    (channel h).syncF = shifted 2 x h := by
  obtain ⟨k, rfl⟩ : ∃ k, h = 1 + k * 2 := ⟨h / 2, by omega⟩
  refine sync_shifted (s := fun h => (channel h).syncF) Nat.one_lt_two ?_ (fun k => ?_) k
  · have rise := runs.rise 0 rfl
    simp only [rise, Channel.takeR]
    exact runs.start.2.1
  · have fall := runs.fall (1 + k * 2) (by omega)
    have rise := runs.rise (1 + k * 2 + 1) (by omega)
    simp only [rise, fall, Channel.takeF, Channel.takeR]

/-- The edges at which the pulse of a synchroniser is up. -/
theorem seen_of_start {place : Nat → Nat} (triggers : Triggers x place) {p h : Nat} (start : Start x p)
    (at' : h = p + 6 ∨ h = p + 7) : (shifted 2 x h).ppulseO = true := by
  rcases at' with rfl | rfl
  · have low : back x (p + 6) 8 = false := (back_add p 6 2).trans (triggers.low p start)
    have high : back x (p + 6) 6 = true := (back_self p 6).trans start.1
    simp [shifted, low, high]
  · have low : back x (p + 7) 8 = false := (back_add p 7 1).trans start.2
    have high : back x (p + 7) 6 = true := (back_self (p + 1) 6).trans (triggers.long p start)
    simp [shifted, low, high]

theorem start_of_seen {h : Nat} (seen : (shifted 2 x h).ppulseO = true) :
    ∃ p, Start x p ∧ (h = p + 6 ∨ h = p + 7) := by
  obtain ⟨low, high⟩ := Bool.and_eq_true_iff.1 seen
  rw [Bool.not_eq_true'] at low
  have late : 6 ≤ h := by
    by_contra early
    rw [back_early (by omega)] at high
    cases high
  -- between the two samples that differ lies an edge of the other kind, which may have been the first to see it
  rcases Bool.eq_false_or_eq_true (back x h 7) with before | before
  · have later : 7 ≤ h := by
      by_contra early
      rw [back_early (by omega)] at before
      cases before
    obtain ⟨p, rfl⟩ := Nat.exists_eq_add_of_le' later
    exact ⟨p, ⟨(back_self p 7).symm.trans before, (back_add p 7 1).symm.trans low⟩, .inr rfl⟩
  · obtain ⟨p, rfl⟩ := Nat.exists_eq_add_of_le' late
    exact ⟨p, ⟨(back_self p 6).symm.trans high, (back_add p 6 1).symm.trans before⟩, .inl rfl⟩

/-- A register that is loaded at every pulse of the synchroniser of its edges keeps what it got for the trigger of `p`
until it is loaded for the next one. -/
theorem held {α : Type*} {y v : Nat → α} {place : Nat → Nat} (triggers : Triggers x place) (phase : Nat)
    (own : ∀ h, h % 2 = phase → y (h + 1) = if (shifted 2 x h).ppulseO then v h else y h)
    (other : ∀ h, h % 2 ≠ phase → y (h + 1) = y h) {p first h : Nat} (start : Start x p)
    (sees : first % 2 = phase ∧ (first = p ∨ first = p + 1)) (late : first + 7 ≤ h)
    (last : ∀ p', Start x p' → p < p' → h ≤ p' + 6) : y h = v (first + 6) := by
  induction h, late using Nat.le_induction with
  | base => rw [own _ (by omega), if_pos (seen_of_start triggers start (by omega))]
  | succ h late ih =>
      have same := ih fun p' next after' => (last p' next after').trans' (Nat.le_succ h)
      by_cases now : h % 2 = phase
      · rw [own h now, if_neg, same]
        intro seen
        obtain ⟨p', next, at'⟩ := start_of_seen seen
        rcases Nat.lt_trichotomy p p' with after' | rfl | before
        · have bound := last p' next after'
          omega
        -- the trigger's own load is at `first + 6`
        · omega
        · omega
      · rw [other h now, same]

theorem ChannelRun.heldR (runs : ChannelRun x counter ppsValid channel) {place : Nat → Nat}
    (triggers : Triggers x place) {p h : Nat} (start : Start x p) (late : firstRise p + 7 ≤ h)
    (last : ∀ p', Start x p' → p < p' → h ≤ p' + 6) :
    (channel h).cntrR = (counter (firstRise p + 6)).cntrR := by
  refine held triggers 0 (y := fun h => (channel h).cntrR) (v := fun h => (counter h).cntrR) (fun h even => ?_)
    (fun h odd => ?_) start (by rw [firstRise]; omega) late last
  · simp only [runs.rise h even, Channel.takeR, runs.syncR even]
  · simp only [runs.fall h (by omega), Channel.takeF]

theorem ChannelRun.heldF (runs : ChannelRun x counter ppsValid channel) {place : Nat → Nat}
    (triggers : Triggers x place) {p h : Nat} (start : Start x p) (late : firstFall p + 7 ≤ h)
    (last : ∀ p', Start x p' → p < p' → h ≤ p' + 6) :
    (channel h).cntrF = (counter (firstFall p + 6)).cntrF := by
  refine held triggers 1 (y := fun h => (channel h).cntrF) (v := fun h => (counter h).cntrF) (fun h odd => ?_)
    (fun h even => ?_) start (by rw [firstFall]; omega) late last
  · simp only [runs.fall h odd, Channel.takeF, runs.syncF odd]
  · simp only [runs.rise h (by omega), Channel.takeR]

/-- Both captures of a trigger make its time. -/
theorem ChannelRun.stamp (runs : ChannelRun x counter ppsValid channel) (p : Nat) :
    (counter (firstFall p + 6)).cntrF ++ (counter (firstRise p + 6)).cntrR = stampOf counter p := by
  have value : (counter (firstRise p + 6)).cntrR = (counter (firstRise p + 5)).cntrR :=
    (runs.counted (firstRise p + 5) (by rw [firstRise]; omega)).1
  have copied : (counter (firstFall p + 6)).cntrF = (counter (firstFall p + 4)).cntrR.setWidth f := by
    rw [runs.copied (firstFall p + 5) (by rw [firstFall]; omega)]
    exact (runs.counted (firstFall p + 4) (by rw [firstFall]; omega)).2
  rw [stampOf, copied, value]
  simp only [firstRise, firstFall]
  rcases Nat.mod_two_eq_zero_or_one p with even | odd
  · rw [if_pos even, even]
    rfl
  · rw [if_neg (by omega), odd]
    have still := (runs.counted (p + 4) (by omega)).1
    rw [show p + 1 - 1 + 4 = p + 4 by omega, show p + 1 + 4 = p + 4 + 1 by omega, still]

theorem Triggers.spaced {place : Nat → Nat} (triggers : Triggers x place) (mono : Monotone place) {p p' : Nat}
    (one : Start x p) (other : Start x p') (after' : p < p') : p + 18 < p' := by
  obtain ⟨k, far, near⟩ := triggers.apart p p' one other after'
  exact Nat.lt_of_le_of_lt (far.trans (mono (Nat.le_add_right k 3))) near

theorem delay_gone {n : Nat} (far : 5 ≤ n) : 0b11110#5 >>> n = 0 := by
  apply BitVec.eq_of_toNat_eq
  rw [BitVec.toNat_ushiftRight, Nat.shiftRight_eq_div_pow]
  refine Nat.div_eq_of_lt ?_
  have power := Nat.pow_le_pow_right Nat.two_pos far
  exact Nat.lt_of_lt_of_le (by decide) power

/-- The delay counts the cycles behind the last rising capture. -/
theorem ChannelRun.delay (runs : ChannelRun x counter ppsValid channel) {place : Nat → Nat}
    (mono : Monotone place) (triggers : Triggers x place) (h : Nat) :
    ((channel h).syncDelay = 0 ∧ ∀ p, Start x p → h < firstRise p + 7) ∨
    ∃ p, Start x p ∧ firstRise p + 7 ≤ h ∧ (∀ p', Start x p' → p < p' → h < firstRise p' + 7) ∧
      (channel h).syncDelay = 0b11110#5 >>> ((h - (firstRise p + 7)) / 2) := by
  induction h with
  | zero => exact .inl ⟨runs.start.2.2, fun p _ => Nat.succ_pos _⟩
  | succ h ih =>
      rcases Nat.mod_two_eq_zero_or_one h with even | odd
      · rw [runs.rise h even]
        simp only [Channel.takeR]
        rw [runs.syncR even]
        cases seen : (shifted 2 x h).ppulseO with
        | true =>
            obtain ⟨p, start, at'⟩ := start_of_seen seen
            have rise : firstRise p + 6 = h := by rw [firstRise]; omega
            -- the ones of the trigger before are shifted out
            have empty : (channel h).syncDelay = 0 := by
              rcases ih with ⟨zero, _⟩ | ⟨p', other, late, _, delayed⟩
              · exact zero
              · rw [delayed]
                have order : p' < p := by
                  rw [firstRise] at late rise
                  by_contra behind
                  rcases Nat.eq_or_lt_of_le (Nat.le_of_not_lt behind) with rfl | behind
                  · omega
                  · have far := triggers.spaced mono start other behind
                    omega
                have far := triggers.spaced mono other start order
                rw [firstRise] at rise ⊢
                exact delay_gone (by omega)
            refine .inr ⟨p, start, by omega, fun p' other after' => ?_, ?_⟩
            · have far := triggers.spaced mono start other after'
              rw [firstRise] at rise ⊢
              omega
            · rw [if_pos rfl, empty, show h + 1 - (firstRise p + 7) = 0 by omega]
              rfl
        | false =>
            have none (p : Nat) (start : Start x p) : h ≠ firstRise p + 6 := by
              rintro rfl
              rw [seen_of_start triggers start (by rw [firstRise]; omega)] at seen
              cases seen
            rw [if_neg Bool.false_ne_true]
            rcases ih with ⟨zero, all⟩ | ⟨p, start, late, last, delayed⟩
            · refine .inl ⟨by rw [zero]; rfl, fun p start => ?_⟩
              have before := all p start
              have notNow := none p start
              omega
            · refine .inr ⟨p, start, by omega, fun p' other after' => ?_, ?_⟩
              · have before := last p' other after'
                have notNow := none p' other
                omega
              · rw [delayed, ← BitVec.shiftRight_add]
                congr 1
                rw [firstRise] at late ⊢
                omega
      · rw [runs.fall h odd]
        simp only [Channel.takeF]
        rcases ih with ⟨zero, all⟩ | ⟨p, start, late, last, delayed⟩
        · refine .inl ⟨zero, fun p start => ?_⟩
          have before := all p start
          rw [firstRise] at before ⊢
          omega
        · refine .inr ⟨p, start, by omega, fun p' other after' => ?_, ?_⟩
          · have before := last p' other after'
            rw [firstRise] at before ⊢
            omega
          · rw [delayed]
            congr 1
            rw [firstRise] at late ⊢
            omega

/-- Bit 0 of the delay is up for four cycles. -/
theorem ChannelRun.delay0 (runs : ChannelRun x counter ppsValid channel) {place : Nat → Nat}
    (mono : Monotone place) (triggers : Triggers x place) {h : Nat}
    (up : (channel h).syncDelay.getLsbD 0 = true) :
    ∃ p, Start x p ∧ firstRise p + 9 ≤ h ∧ h ≤ firstRise p + 16 := by
  rcases runs.delay mono triggers h with ⟨zero, _⟩ | ⟨p, start, late, _, delayed⟩
  · rw [zero] at up
    cases up
  · refine ⟨p, start, ?_⟩
    rw [delayed] at up
    generalize count : (h - (firstRise p + 7)) / 2 = n at up
    have some' : n ≠ 0 := by
      rintro rfl
      cases up
    have few : n < 5 := by
      by_contra many
      rw [delay_gone (by omega)] at up
      cases up
    omega

end Channel

/-! ### Outputs -/

section Output

variable {r f : Nat} {counter : Nat → TsCounter r f} {ppsValid : Nat → Bool} {channel : Nat → Channel r f}
  {reads : Nat → ReadEdge r f}

theorem Ordered.mono (ordered : Ordered reads) : Monotone fun k => (reads k).place :=
  monotone_nat_of_le_succ fun k => (Nat.le_add_right _ _).trans (ordered k)

/-- An edge that finds bit 0 of the delay up lies behind both captures of its trigger, and the third edge after it
before those of the next one. -/
theorem read_between (runs : ChannelRun x counter ppsValid channel) (ordered : Ordered reads)
    (triggers : Triggers x fun k => (reads k).place) {k : Nat}
    (up : (found channel (reads k)).syncDelay0 = true) : ∃ p, Start x p ∧ firstRise p + 9 ≤ (reads (k + 4)).place ∧
      ∀ p', Start x p' → p < p' → (reads (k + 4)).place < p' := by
  have mono := ordered.mono
  obtain ⟨h, from', upTo, high⟩ : ∃ h, (reads k).place ≤ h ∧ h ≤ (reads (k + 1)).place ∧
      (channel h).syncDelay.getLsbD 0 = true := by
    have next := ordered k
    simp only [found] at up
    cases during : (reads k).during with
    | false => exact ⟨_, le_rfl, mono (Nat.le_succ k), by simpa [during] using up⟩
    | true =>
        rw [during, if_pos rfl] at next
        cases fresh : (reads k).fresh with
        | false => exact ⟨_, le_rfl, mono (Nat.le_succ k), by simpa [fresh] using up⟩
        | true => exact ⟨_, Nat.le_succ _, next, by simpa [during, fresh] using up⟩
  obtain ⟨p, start, late, early⟩ := runs.delay0 mono triggers high
  refine ⟨p, start, late.trans (upTo.trans (mono (by omega))), fun p' other after' => ?_⟩
  obtain ⟨j, far, near⟩ := triggers.apart p p' start other after'
  -- bit 0 has fallen before the nine cycles are over
  have before : k < j := by
    by_contra behind
    have order : (reads j).place ≤ (reads k).place := mono (Nat.le_of_not_lt behind)
    have beyond : p + 18 ≤ (reads j).place := far
    rw [firstRise] at early
    omega
  exact Nat.lt_of_le_of_lt (mono (by omega : k + 4 ≤ j + 3)) near

/-- Between its captures and those of the next one a trigger's time is found. -/
theorem found_stamp (runs : ChannelRun x counter ppsValid channel) {place : Nat → Nat} (triggers : Triggers x place)
    {p : Nat} (start : Start x p) {e : ReadEdge r f} (late : firstRise p + 9 ≤ e.place)
    (last : ∀ p', Start x p' → p < p' → e.place < p') :
    (found channel e).cntrF ++ (found channel e).cntrR = stampOf counter p := by
  have near : firstFall p ≤ firstRise p + 1 := by
    rw [firstRise, firstFall]
    omega
  have oldR := runs.heldR triggers start (h := e.place) (by omega) fun p' other after' => by
    have bound := last p' other after'
    omega
  have newR := runs.heldR triggers start (h := e.place + 1) (by omega) fun p' other after' => by
    have bound := last p' other after'
    omega
  have oldF := runs.heldF triggers start (h := e.place) (by omega) fun p' other after' => by
    have bound := last p' other after'
    omega
  have newF := runs.heldF triggers start (h := e.place + 1) (by omega) fun p' other after' => by
    have bound := last p' other after'
    omega
  rw [← runs.stamp p]
  simp only [found]
  cases e.during with
  | false =>
      simp only [Bool.false_eq_true, if_false]
      rw [oldR, oldF, Words.Gray.mixture_self, Words.Gray.mixture_self]
  | true =>
      simp only [if_true]
      rw [oldR, newR, oldF, newF, Words.Gray.mixture_self, Words.Gray.mixture_self]

/-- A reading clock whose outputs change with a done pulse only. -/
structure Outputs (output : Reader r f → Found r f → Bool → Reader r f) : Prop where
  done : ∀ s seen en, (output s seen en).done = s.done.step seen.syncDelay0
  stamp : ∀ s seen, s.done.npulseO = true → (output s seen true).timestampO = seen.cntrF ++ seen.cntrR

theorem outputRxTs_outputs : Outputs (Reader.outputRxTs (r := r) (f := f)) where
  done s seen en := by
    rw [Reader.outputRxTs]
    cases en <;> cases s.done.npulseO <;> rfl
  stamp s seen done := by simp [Reader.outputRxTs, done]

theorem outputTxTs_outputs : Outputs (Reader.outputTxTs (r := r) (f := f)) where
  done s seen en := by
    rw [Reader.outputTxTs]
    cases en <;> cases s.done.npulseO <;> rfl
  stamp s seen done := by simp [Reader.outputTxTs, done]

/-- Every output is the time of the last trigger. -/
theorem output_stamp {output : Reader r f → Found r f → Bool → Reader r f} (outputs : Outputs output)
    (runs : ChannelRun x counter ppsValid channel) (ordered : Ordered reads)
    (triggers : Triggers x fun k => (reads k).place) {start : Reader r f} (zero : start.done = .zero) {k : Nat}
    (done : (readerAt output channel reads start k).done.npulseO = true) (en : (reads k).en = true) :
    ∃ p, Start x p ∧ p < (reads k).place ∧ (∀ p', Start x p' → p' ≤ (reads k).place → p' ≤ p) ∧
      (readerAt output channel reads start (k + 1)).timestampO = stampOf counter p := by
  have chain := sync_shifted (x := fun k => (found channel (reads k)).syncDelay0)
    (s := fun k => (readerAt output channel reads start k).done) Nat.one_pos zero (fun k => by
      simp only [Nat.zero_add, Nat.mul_one]
      exact outputs.done _ _ _) k
  simp only [Nat.zero_add, Nat.mul_one] at chain
  have high := done
  rw [chain, shifted] at high
  have up := (Bool.and_eq_true_iff.1 high).1
  obtain ⟨early, seen⟩ := Bool.and_eq_true_iff.1 up
  have late : 4 * 1 ≤ k := of_decide_eq_true early
  obtain ⟨p, trigger, behind, before⟩ := read_between runs ordered triggers seen
  rw [show k - 4 * 1 + 4 = k by omega] at behind before
  refine ⟨p, trigger, ?_, fun p' other upTo => ?_, ?_⟩
  · rw [firstRise] at behind
    omega
  · by_contra after'
    have bound := before p' other (Nat.lt_of_not_le after')
    omega
  · rw [readerAt, en, outputs.stamp _ _ done, found_stamp runs triggers trigger behind before]

/-! ### The unit -/

variable {gRefClockRate : Nat} {inputs : Nat → Half} {start : Stamper r f}

/-- The synchronisers are empty, and no capture is under way. -/
def Channel.Cleared (c : Channel r f) : Prop := c.syncR = .zero ∧ c.syncF = .zero ∧ c.syncDelay = 0

theorem stamperAt_rise {h : Nat} (even : h % 2 = 0) : stamperAt gRefClockRate inputs start (h + 1) =
    (stamperAt gRefClockRate inputs start h).rise gRefClockRate (inputs h) := by
  rw [stamperAt, if_pos even]

theorem stamperAt_fall {h : Nat} (odd : h % 2 = 1) : stamperAt gRefClockRate inputs start (h + 1) =
    (stamperAt gRefClockRate inputs start h).fall (inputs h) := by
  rw [stamperAt, if_neg (by omega)]

theorem tx_run (cleared : start.tx.Cleared) : ChannelRun (fun h => (inputs h).txTrigger)
    (fun h => (stamperAt gRefClockRate inputs start h).counter) (fun h => (inputs h).ppsValid)
    (fun h => (stamperAt gRefClockRate inputs start h).tx) where
  start := cleared
  rise h even := by rw [stamperAt_rise even]; rfl
  fall h odd := by rw [stamperAt_fall odd]; rfl
  counted h odd := by rw [stamperAt_fall odd]; exact ⟨rfl, rfl⟩
  copied h even := by rw [stamperAt_rise even]; rfl

theorem rx_run (cleared : start.rx.Cleared) : ChannelRun (fun h => (inputs h).rxTrigger)
    (fun h => (stamperAt gRefClockRate inputs start h).counter) (fun h => (inputs h).ppsValid)
    (fun h => (stamperAt gRefClockRate inputs start h).rx) where
  start := cleared
  rise h even := by rw [stamperAt_rise even]; rfl
  fall h odd := by rw [stamperAt_fall odd]; rfl
  counted h odd := by rw [stamperAt_fall odd]; exact ⟨rfl, rfl⟩
  copied h even := by rw [stamperAt_rise even]; rfl

/-- Every timestamp of either line is the time of its last trigger. -/
theorem triggers_located (gRefClockRate : Nat) (inputs : Nat → Half) (start : Stamper r f)
    (readsTx readsRx : Nat → ReadEdge r f) (readerTx readerRx : Reader r f) (clearedTx : start.tx.Cleared)
      (clearedRx : start.rx.Cleared) (zeroTx : readerTx.done = .zero)
    (zeroRx : readerRx.done = .zero) (orderedTx : Ordered readsTx) (orderedRx : Ordered readsRx)
    (triggersTx : Triggers (fun h => (inputs h).txTrigger) fun k => (readsTx k).place)
    (triggersRx : Triggers (fun h => (inputs h).rxTrigger) fun k => (readsRx k).place) :
    let unit := stamperAt gRefClockRate inputs start
    let tx := readerAt Reader.outputTxTs (fun h => (unit h).tx) readsTx readerTx
    let rx := readerAt Reader.outputRxTs (fun h => (unit h).rx) readsRx readerRx
    (∀ k, (tx k).done.npulseO = true → (readsTx k).en = true →
      ∃ p, Start (fun h => (inputs h).txTrigger) p ∧ p < (readsTx k).place ∧
        (∀ p', Start (fun h => (inputs h).txTrigger) p' → p' ≤ (readsTx k).place → p' ≤ p) ∧
        (tx (k + 1)).timestampO = stampOf (fun h => (unit h).counter) p) ∧
    (∀ k, (rx k).done.npulseO = true → (readsRx k).en = true →
      ∃ p, Start (fun h => (inputs h).rxTrigger) p ∧ p < (readsRx k).place ∧
        (∀ p', Start (fun h => (inputs h).rxTrigger) p' → p' ≤ (readsRx k).place → p' ≤ p) ∧
        (rx (k + 1)).timestampO = stampOf (fun h => (unit h).counter) p) :=
  ⟨fun _ done en => output_stamp outputTxTs_outputs (tx_run clearedTx) orderedTx triggersTx zeroTx done en,
    fun _ done en => output_stamp outputRxTs_outputs (rx_run clearedRx) orderedRx triggersRx zeroRx done en⟩

end Output

/-- A trigger on both lines, first seen by a falling edge. -/
def oneTrigger (h : Nat) : Half where
  txTrigger := decide (1 ≤ h ∧ h < 5)
  rxTrigger := decide (1 ≤ h ∧ h < 5)

def cleared : Channel 28 4 := ⟨.zero, .zero, 0, 0, 0, false⟩

def everyCycle (k : Nat) : ReadEdge 28 4 := { place := 2 * k }

def unread : Reader 28 4 := ⟨.zero, 0, false, false⟩

theorem oneTrigger_start {p : Nat} (start : Start (fun h => (oneTrigger h).txTrigger) p) : p = 1 := by
  obtain ⟨high, low⟩ := start
  simp only [oneTrigger, back, decide_eq_true_eq] at high low
  by_contra other
  simp [show 1 ≤ p by omega, show 1 ≤ p - 1 by omega, show p - 1 < 5 by omega] at low

theorem oneTrigger_triggers : Triggers (fun h => (oneTrigger h).txTrigger) fun k => (everyCycle k).place where
  long p start := by rw [oneTrigger_start start]; rfl
  low p start := by rw [oneTrigger_start start]; rfl
  apart p p' start start' after' := by
    have first := oneTrigger_start start
    have second := oneTrigger_start start'
    omega

theorem everyCycle_ordered : Ordered everyCycle := fun k => by
  change 2 * k + 0 ≤ 2 * (k + 1)
  omega

theorem triggers_located_one : ∃ p, Start (fun h => (oneTrigger h).txTrigger) p ∧
    (readerAt Reader.outputTxTs (fun h => (stamperAt 125000000 oneTrigger ⟨⟨0, 0⟩, cleared, cleared⟩ h).tx) everyCycle
      unread 14).timestampO =
      stampOf (fun h => (stamperAt 125000000 oneTrigger (⟨⟨0, 0⟩, cleared, cleared⟩ : Stamper 28 4) h).counter)
        p := by
  obtain ⟨p, start, _, _, same⟩ := (triggers_located 125000000 oneTrigger ⟨⟨0, 0⟩, cleared, cleared⟩ everyCycle
    everyCycle unread unread ⟨rfl, rfl, rfl⟩ ⟨rfl, rfl, rfl⟩ rfl rfl everyCycle_ordered everyCycle_ordered
    oneTrigger_triggers oneTrigger_triggers).1 13 (by decide) rfl
  exact ⟨p, start, same⟩

end WrCores.Endpoint.TimestampingUnit
