import WrCores.Clocked.Run
import WrCores.Streamers.DroppingBuffer
import WrCores.Streamers.Pkg

/-!
xrx_streamer_light.vhd behind its fabric sink. The FSM takes the end of a frame from a
gap in `dvalid` (the line that would take it from the fabric's eof and error is
commented out) and escape codes do not exist, so `is_escape` is left out as the constant
it is. Registers that nothing reads (`seq_no`, `got_next_subframe`, `sync_seq_no`,
`is_vlan`) or that only hold their reset value (`frames_lost`, `blocks_lost`, the
latency and the lost-frame count) are left out, and so is `delay_six_cyc`, whose
outputs go nowhere. The source declares the buffer's read request `rx_dreq` and never
drives it; it is an input here.
-/

namespace WrCores.Streamers.RxLight

open Clocked

inductive State where
  | idle
  | header
  | payload
  | last
  | eof
  deriving DecidableEq, Repr

structure Fsm (k : Nat) where
  state : State
  count : BitVec 15
  serCount : BitVec 8
  fifoAccept : Bool
  fifoDrop : Bool
  fifoDvalid : Bool
  pendingWrite : Bool
  fifoSync : Bool
  fifoLast : Bool
  rxFrameP1 : Bool
  packData : Lanes k
  fifoData : Lanes k

namespace Fsm

variable {k : Nat} (cfg : RxStreamerCfg)

def reset (k : Nat) : Fsm k where
  state := .idle
  count := 0
  serCount := 0
  fifoAccept := false
  fifoDrop := false
  fifoDvalid := false
  pendingWrite := false
  fifoSync := false
  fifoLast := false
  rxFrameP1 := false
  packData := fun _ => 0
  fifoData := fun _ => 0

def idleStep (s : Fsm k) (i : Pipe) : Fsm k :=
  { s with
    state := if i.sof then .header else .idle
    count := 0
    fifoAccept := false
    fifoDrop := false
    fifoDvalid := false
    pendingWrite := false
    serCount := 0
    fifoSync := false
    fifoLast := false
    rxFrameP1 := false }

/-- The header of a frame: `count` selects the test, and its seventh word is not looked at. -/
def headerWord (s : Fsm k) (data : BitVec 16) : Fsm k :=
  let n := (s.count.setWidth 8).toNat
  if n < 6 then
    { s with state := if cfg.refuses n data then .idle else s.state, count := s.count + 1#15 }
  else if n = 6 then
    { s with
      state := .payload
      rxFrameP1 := true
      fifoDrop := false
      fifoAccept := false
      serCount := 0
      count := s.count + 1#15 }
  else s

def headerStep (s : Fsm k) (i : Pipe) : Fsm k :=
  if i.eof then { s with state := .idle } else if i.dvalid then s.headerWord cfg i.data else s

/-- A half-word of payload. A full word is written one word's length later, in the
cycle before the next one is complete. -/
def pack (s : Fsm k) (data : BitVec 16) : Fsm k :=
  let s' := { s with
    fifoLast := false
    fifoAccept := false
    fifoDrop := false
    packData := setLane s.packData s.serCount.toNat data }
  if s.serCount.toNat + 1 = k then
    if s.serCount = 0#8 then
      { s' with serCount := 0, fifoData := s.packData, fifoDvalid := true, pendingWrite := false }
    else
      { s' with
        serCount := 0
        fifoData := topLane s.packData data
        fifoDvalid := false
        pendingWrite := true }
  else if s.serCount.toNat + 2 = k ∧ s.pendingWrite = true then
    { s' with pendingWrite := false, serCount := s.serCount + 1#8, fifoDvalid := true }
  else { s' with serCount := s.serCount + 1#8, fifoDvalid := false }

def payloadStep (s : Fsm k) (i : Pipe) : Fsm k :=
  let s' :=
    if i.eof then { s with state := .idle, fifoDrop := true, fifoAccept := false }
    else if i.dvalid then s.pack i.data
    else
      { s with
        state := .last
        fifoLast := true
        fifoDvalid := true
        fifoData := if s.pendingWrite then s.fifoData else topLane s.packData 0#16 }
  -- both branches of the last test of the state assign the same, after the ones above
  { s' with fifoAccept := true, fifoDrop := false }

def lastStep (s : Fsm k) : Fsm k :=
  { s with
    state := .eof, fifoLast := false, fifoDvalid := false, fifoAccept := true, fifoDrop := false }

def eofStep (s : Fsm k) : Fsm k :=
  { s with state := .idle, fifoDvalid := false, fifoDrop := false, fifoAccept := false }

def step (s : Fsm k) (i : Pipe) : Fsm k :=
  match s.state with
  | .idle => s.idleStep i
  | .header => s.headerStep cfg i
  | .payload => s.payloadStep i
  | .last => s.lastStep
  | .eof => s.eofStep

end Fsm

end WrCores.Streamers.RxLight

namespace WrCores.Streamers

open Clocked

structure RxLight (k w : Nat) where
  fsm : RxLight.Fsm k
  fifoAcceptD0 : Bool
  fabDvalidD0 : Bool
  buffer : DroppingBuffer (RxWord k) w

structure RxLightIn where
  fab : Fabric.Decoded
  rxDreq : Bool
  deriving DecidableEq, Repr

namespace RxLight

variable {k w : Nat} (cfg : RxStreamerCfg)

def reset (k w : Nat) : RxLight k w where
  fsm := Fsm.reset k
  fifoAcceptD0 := false
  fabDvalidD0 := false
  buffer := DroppingBuffer.reset ⟨false, false, fun _ => 0⟩

def fsmIn (s : RxLight k w) (fab : Fabric.Decoded) : Pipe where
  data := fab.data
  dvalid := fabDvalid fab
  sof := fab.sof
  eof := !fabDvalid fab && s.fabDvalidD0

def fifoDin (s : RxLight k w) : RxWord k := ⟨s.fsm.fifoSync, s.fsm.fifoLast, s.fsm.fifoData⟩

def bufferIn (s : RxLight k w) (rxDreq : Bool) : DroppingBufferIn (RxWord k) where
  dI := s.fifoDin
  dDropI := s.fsm.fifoDrop
  dAcceptI := s.fifoAcceptD0
  dValidI := s.fsm.fifoDvalid
  dReqI := rxDreq

def step (s : RxLight k w) (i : RxLightIn) : RxLight k w where
  fsm := s.fsm.step cfg (s.fsmIn i.fab)
  fifoAcceptD0 := s.fsm.fifoAccept
  fabDvalidD0 := fabDvalid i.fab
  buffer := s.buffer.step (s.bufferIn i.rxDreq)

/-- What the buffer is asked to write. -/
def writes (s : RxLight k w) (_ : RxLightIn) : List (RxWord k) :=
  if s.fsm.fifoDvalid then [s.fifoDin] else []

/-! ### Words of a payload

A payload is a list of half-words, `pack₀` what the packing register held before it. -/

section Words

variable (k : Nat) (pack₀ : Lanes k) (halves : List (BitVec 16))

/-- The `m`-th word written for a payload. With one lane a word, the FSM writes what the
packing register held before the half-word that completes it. -/
def wordAt (m : Nat) : Lanes k :=
  if k = 1 then
    match m with
    | 0 => pack₀
    | m + 1 => fun _ => halves.getD m 0
  else fun lane => halves.getD (m * k + lane) 0

/-- Whether the cycle after `j` half-words writes a word. `ser_count` has eight bits, so
with more than 256 lanes a word is never complete. -/
def Flushes (j : Nat) : Prop := k ≤ 256 ∧ k ≤ j ∧ (j + 1) % k = 0

instance (j : Nat) : Decidable (Flushes k j) := inferInstanceAs (Decidable (_ ∧ _))

def flush (j : Nat) : List (RxWord k) :=
  if Flushes k j then [⟨false, false, wordAt k pack₀ halves (j / k - 1)⟩] else []

/-- How many words have been written by the cycle after `p` half-words. -/
def flushed (p : Nat) : Nat := if k ≤ 256 then (p + 1) / k - 1 else 0

theorem flushed_succ (positive : 0 < k) (p : Nat) :
    flushed k (p + 1) = flushed k p + if Flushes k (p + 1) then 1 else 0 := by
  by_cases narrow : k ≤ 256
  · have grows : (p + 1 + 1) / k = (p + 1) / k + if k ∣ p + 1 + 1 then 1 else 0 := Nat.succ_div
    have same : Flushes k (p + 1) ↔ k ≤ p + 1 ∧ k ∣ p + 1 + 1 := by
      rw [Flushes, Nat.dvd_iff_mod_eq_zero]
      simp [narrow]
    have some : k ≤ p + 1 → 1 ≤ (p + 1) / k := fun le => (Nat.one_le_div_iff positive).2 le
    have none : ¬ k ≤ p + 1 → (p + 1) / k = 0 := fun gt => Nat.div_eq_of_lt (by omega)
    simp only [flushed, narrow, if_true, same, grows]
    by_cases complete : k ∣ p + 1 + 1
    · by_cases le : k ≤ p + 1
      · have := some le
        simp only [complete, le, and_self, if_true]
        omega
      · simp [complete, le, none le]
    · simp [complete]
  · have quiet : ¬ Flushes k (p + 1) := fun flushes => narrow flushes.1
    simp [flushed, narrow, quiet]

theorem flush_range (positive : 0 < k) (p : Nat) :
    (List.range (p + 1)).flatMap (flush k pack₀ halves) =
      (List.range (flushed k p)).map fun m => ⟨false, false, wordAt k pack₀ halves m⟩ := by
  induction p with
  | zero =>
      have none : flushed k 0 = 0 := by
        have := Nat.div_le_self (0 + 1) k
        simp only [flushed]
        split <;> omega
      have quiet : ¬ Flushes k 0 := fun flushes => absurd flushes.2.1 (by omega)
      simp [flush, quiet, none]
  | succ p ih =>
      rw [List.range_succ, List.flatMap_append, ih, flushed_succ k positive, List.flatMap_singleton]
      by_cases flushes : Flushes k (p + 1)
      · have index : (p + 1) / k - 1 = flushed k p := by rw [flushed, if_pos flushes.1]
        simp [flush, flushes, index, List.range_succ]
      · simp [flush, flushes]

theorem mod_succ (positive : 0 < k) (j : Nat) :
    (j + 1) % k = if j % k + 1 = k then 0 else j % k + 1 := by
  have below := Nat.mod_lt j positive
  have split : j + 1 = k * (j / k) + (j % k + 1) := by
    have := Nat.div_add_mod j k
    omega
  rw [split, Nat.mul_add_mod]
  split_ifs with full
  · rw [full, Nat.mod_self]
  · rw [Nat.mod_eq_of_lt (by omega)]

theorem div_succ (positive : 0 < k) (j : Nat) :
    (j + 1) / k = if j % k + 1 = k then j / k + 1 else j / k := by
  have below := Nat.mod_lt j positive
  have split : j + 1 = k * (j / k) + (j % k + 1) := by
    have := Nat.div_add_mod j k
    omega
  rw [split, Nat.mul_add_div positive]
  split_ifs with full
  · rw [full, Nat.div_self positive]
  · rw [Nat.div_eq_of_lt (show j % k + 1 < k by omega), Nat.add_zero]

/-- The packing registers after `j` of the half-words. -/
structure Packed (j : Nat) (f : Fsm k) : Prop where
  sync : f.fifoSync = false
  last : f.fifoLast = false
  serCount : k ≤ 256 → f.serCount.toNat = j % k
  pending : f.pendingWrite = true ↔ k ≤ 256 ∧ k ≤ j ∧ (j + 1) % k ≠ 0
  dvalid : f.fifoDvalid = true ↔ Flushes k j
  data : k ≤ 256 → k ≤ j → f.fifoData = wordAt k pack₀ halves (j / k - 1)
  lanes : k ≤ 256 → ∀ lane : Fin k, lane.val < j % k →
    f.packData lane = halves.getD (j / k * k + lane) 0
  single : k = 1 → f.packData = wordAt k pack₀ halves j

end Words

section Packing

variable {pack₀ : Lanes k} {halves : List (BitVec 16)} {j : Nat} {f : Fsm k}

/-- One lane: the word is the register's old content. -/
theorem Packed.pack_single (packed : Packed k pack₀ halves j f) (one : k = 1) :
    Packed k pack₀ halves (j + 1) (f.pack (halves.getD j 0)) := by
  subst one
  have zero : f.serCount.toNat = 0 := by
    have := packed.serCount (by decide)
    omega
  have zero' : f.serCount = 0#8 := BitVec.eq_of_toNat_eq (by simpa using zero)
  constructor
  all_goals simp only [Fsm.pack, zero', BitVec.toNat_ofNat, Nat.zero_mod, Nat.zero_add, if_true]
  · exact packed.sync
  · simp [Nat.mod_one]
  · simp [Nat.mod_one]
  · simp [Flushes, Nat.mod_one]
  · simpa using packed.single rfl
  · simp [Nat.mod_one]
  · intro _
    funext lane
    simp [setLane, wordAt]

/-- The half-word that completes a word of several lanes. -/
theorem Packed.pack_full (packed : Packed k pack₀ halves j f) (several : k ≠ 1)
    (narrow : k ≤ 256) (full : j % k + 1 = k) :
    Packed k pack₀ halves (j + 1) (f.pack (halves.getD j 0)) := by
  have positive : 0 < k := by omega
  have ser := packed.serCount narrow
  have atEnd : f.serCount.toNat + 1 = k := by omega
  have nonzero : f.serCount ≠ 0#8 := by
    intro zero
    rw [zero] at ser
    simp only [BitVec.toNat_ofNat, Nat.zero_mod] at ser
    omega
  have mod1 : (j + 1) % k = 0 := by rw [mod_succ k positive, if_pos full]
  have mod2 : (j + 1 + 1) % k = 1 := by
    rw [mod_succ k positive, mod1, if_neg (by omega)]
  have div1 : (j + 1) / k = j / k + 1 := by rw [div_succ k positive, if_pos full]
  have long : k ≤ j + 1 := Nat.le_of_dvd (by omega) (Nat.dvd_of_mod_eq_zero mod1)
  constructor
  all_goals simp only [Fsm.pack, atEnd, nonzero, if_true, if_false, mod1, mod2, div1]
  · exact packed.sync
  · simp
  · simp [narrow, long]
  · simp [Flushes, mod2]
  · intro _ _
    funext lane
    simp only [topLane, wordAt, several, if_false, Nat.add_sub_cancel]
    split_ifs with top
    · have index : j / k * k + lane.val = j := by
        have := Nat.div_add_mod j k
        rw [Nat.mul_comm] at this
        omega
      rw [index]
    · exact packed.lanes narrow lane (by omega)
  · simp
  · exact fun one => absurd one several

/-- A half-word before the last of its word. -/
theorem Packed.pack_inside (packed : Packed k pack₀ halves j f) (positive : 0 < k)
    (narrow : k ≤ 256) (inside : j % k + 1 ≠ k) :
    Packed k pack₀ halves (j + 1) (f.pack (halves.getD j 0)) := by
  have below := Nat.mod_lt j positive
  have ser := packed.serCount narrow
  have notEnd : f.serCount.toNat + 1 ≠ k := by omega
  have mod1 : (j + 1) % k = j % k + 1 := by rw [mod_succ k positive, if_neg inside]
  have mod2 : (j + 1 + 1) % k = if j % k + 2 = k then 0 else j % k + 2 := by
    rw [mod_succ k positive, mod1]
  have div1 : (j + 1) / k = j / k := by rw [div_succ k positive, if_neg inside]
  have split := Nat.div_add_mod j k
  have reached : k ≤ j + 1 ↔ k ≤ j := by
    refine ⟨fun le => ?_, fun le => by omega⟩
    by_contra more
    have small : j % k = j := Nat.mod_eq_of_lt (by omega)
    omega
  have next : (f.serCount + 1#8).toNat = j % k + 1 := by
    rw [BitVec.toNat_add, ser]
    exact Nat.mod_eq_of_lt (by simp; omega)
  have lanes' : ∀ lane : Fin k, lane.val < j % k + 1 →
      setLane f.packData f.serCount.toNat (halves.getD j 0) lane =
        halves.getD (j / k * k + lane) 0 := by
    intro lane less
    simp only [setLane, ser]
    split_ifs with here
    · rw [here, Nat.mul_comm, split]
    · exact packed.lanes narrow lane (by omega)
  have several : k ≠ 1 := by
    rintro rfl
    omega
  by_cases flushes : f.serCount.toNat + 2 = k ∧ f.pendingWrite = true
  · have pending := packed.pending.1 flushes.2
    have two : j % k + 2 = k := by omega
    constructor
    all_goals simp only [Fsm.pack, notEnd, flushes, if_true, if_false, and_self, mod1, mod2, div1, two]
    · exact packed.sync
    · exact fun _ => next
    · simp
    · simp [Flushes, narrow, reached, pending.2.1, mod2, two]
    · exact fun _ long => packed.data narrow (reached.1 long)
    · exact fun _ => lanes'
    · exact fun one => absurd one several
  · have waits : j % k + 2 = k → ¬ k ≤ j := by
      intro two long
      refine flushes ⟨by omega, packed.pending.2 ⟨narrow, long, ?_⟩⟩
      rw [mod1]
      omega
    constructor
    all_goals simp only [Fsm.pack, notEnd, flushes, if_false, mod1, mod2, div1]
    · exact packed.sync
    · exact fun _ => next
    · rw [packed.pending, reached, mod1]
      split_ifs with two
      · simp [waits two]
      · simp
    · simp only [Flushes, mod2, reached, narrow, true_and]
      split_ifs with two
      · simp [waits two]
      · simp
    · exact fun _ long => packed.data narrow (reached.1 long)
    · exact fun _ => lanes'
    · exact fun one => absurd one several

/-- With too many lanes nothing is ever complete. -/
theorem Packed.pack_wide (packed : Packed k pack₀ halves j f) (wide : 256 < k) :
    Packed k pack₀ halves (j + 1) (f.pack (halves.getD j 0)) := by
  have small : f.serCount.toNat < 256 := f.serCount.isLt
  have notWide : ¬ k ≤ 256 := by omega
  have notEnd : f.serCount.toNat + 1 ≠ k := by omega
  have idle : f.pendingWrite = false := by
    simpa [notWide] using packed.pending.not
  constructor
  all_goals simp only [Fsm.pack, notEnd, idle, if_false, and_false, notWide, Bool.false_eq_true,
    false_and, false_implies]
  · exact packed.sync
  · exact iff_of_false id fun flushes => notWide flushes.1
  · exact fun one => by omega

theorem Packed.pack (packed : Packed k pack₀ halves j f) (positive : 0 < k) :
    Packed k pack₀ halves (j + 1) (f.pack (halves.getD j 0)) := by
  by_cases narrow : k ≤ 256
  · by_cases one : k = 1
    · exact packed.pack_single one
    · by_cases full : j % k + 1 = k
      · exact packed.pack_full one narrow full
      · exact packed.pack_inside positive narrow full
  · exact packed.pack_wide (by omega)

end Packing

end RxLight

end WrCores.Streamers
