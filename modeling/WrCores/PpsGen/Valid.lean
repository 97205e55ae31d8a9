import WrCores.PpsGen.Adjust

/-!
`pps_valid_o` of wr_pps_gen.vhd: `p_drive_pps_valid` with the counters and `p_external_sync`. A cycle here is the falling
edge, at which the external synchronisation works, and the rising edge behind it. A `Book` notes the roll-overs of
the seconds since the last reset, adjustment or synchronisation, each with the number of cycles counted before.
-/

namespace WrCores.PpsGen.Valid

open Clocked

/-- `extSyncP` of the counter commands is made here and not read. -/
structure PpsIn where
  commands : CounterIn := {}
  escrSyncLoad : Bool := false
  escrSyncOut : Bool := false
  ppsInRefclk : Bool := false
  deriving DecidableEq, Repr

structure Registers where
  counters : Counters := {}
  syncInProgress : Bool := false
  extSyncP : Bool := false
  escrSyncIn : Bool := false
  ppsValidInt : Bool := false
  nsOverflow2nd : Bool := false
  deriving DecidableEq, Repr

variable (withExtClockInput : Bool) (cPeriod : Nat)

/-- `p_external_sync`. -/
def externalSync (s : Registers) (i : PpsIn) : Registers :=
  if !withExtClockInput then { s with extSyncP := false, syncInProgress := false, escrSyncIn := false }
  else if !i.commands.rstRefN then { s with syncInProgress := false, escrSyncIn := false }
  else if i.escrSyncLoad then { s with syncInProgress := i.escrSyncOut, escrSyncIn := false }
  else if s.syncInProgress && i.ppsInRefclk then
    { s with extSyncP := true, syncInProgress := false, escrSyncIn := true }
  else { s with extSyncP := false }

/-- The commands as the counters see them at the rising edge. -/
def commands (s : Registers) (i : PpsIn) : CounterIn := { i.commands with extSyncP := s.extSyncP }

/-- An adjustment or a synchronisation is in progress at the rising edge. -/
def inProgress (s : Registers) : Bool :=
  s.syncInProgress || s.counters.adjustInProgressNsec || s.counters.adjustInProgressUtc

def risingEdge (s : Registers) (i : PpsIn) : Registers :=
  { s with
    counters := s.counters.step cPeriod (commands s i)
    ppsValidInt :=
      if i.commands.resets || inProgress s then false
      else s.ppsValidInt || (s.counters.nsOverflow && s.nsOverflow2nd)
    nsOverflow2nd :=
      if i.commands.resets || inProgress s then false else s.nsOverflow2nd || s.counters.nsOverflow }

def step (s : Registers) (i : PpsIn) : Registers := risingEdge cPeriod (externalSync withExtClockInput s i) i

def ppsValidO (s : Registers) : Bool := s.ppsValidInt

/-! ### The roll-overs -/

structure Book where
  clock : Nat := 0
  rolled : List Nat := []
  deriving DecidableEq, Repr

/-- The counter counts, with the roll-over of the seconds at the end of each. -/
def counts (i : CounterIn) : Bool := !i.resets && i.cntEn

def rolls (c : Counters) (i : CounterIn) : Bool := counts i && !i.setsNsec && c.atEnd cPeriod

/-- Nothing is noted while a reset, an adjustment or a synchronisation is going on. -/
def Book.next (b : Book) (s : Registers) (i : PpsIn) : Book where
  clock := if counts (commands s i) then b.clock + 1 else b.clock
  rolled :=
    if i.commands.resets || inProgress s then []
    else if rolls cPeriod s.counters (commands s i) then b.rolled ++ [b.clock] else b.rolled

def stepBook (sb : Registers × Book) (i : PpsIn) : Registers × Book :=
  (step withExtClockInput cPeriod sb.1 i, sb.2.next cPeriod (externalSync withExtClockInput sb.1 i) i)

/-- Two roll-overs with the cycles of a second between them. -/
def Book.TwoSeconds (b : Book) : Prop := ∃ t ∈ b.rolled, t + cPeriod ∈ b.rolled

instance (b : Book) : Decidable (b.TwoSeconds cPeriod) := inferInstanceAs (Decidable (∃ t ∈ b.rolled, _))

def Sound (sb : Registers × Book) : Prop := ppsValidO sb.1 = true → sb.2.TwoSeconds cPeriod

/-- Until two seconds have passed, the overflow pulse stands in cycles that roll over only, and behind the first
one counted the counter is not loaded. -/
def Steady (sb : Registers × Book) (i : PpsIn) : Prop :=
  let s := externalSync withExtClockInput sb.1 i
  let c := commands s i
  (i.commands.resets || inProgress s) = false → ¬sb.2.TwoSeconds cPeriod →
    (s.counters.nsOverflow = true → c.cntEn = true ∧ c.setsNsec = false) ∧
    (s.nsOverflow2nd = true → (c.cntEn && c.setsNsec) = false)

instance (sb : Registers × Book) (i : PpsIn) : Decidable (Steady withExtClockInput cPeriod sb i) :=
  inferInstanceAs (Decidable (_ → _ → _))

/-- Since the last roll-over that was counted the counter has run from zero. -/
structure Running (s : Registers) (b : Book) : Prop where
  since : ∃ t ∈ b.rolled, t + 1 + s.counters.cntrNsec.toNat = b.clock
  below : s.counters.cntrNsec.toNat < cPeriod
  pulse : s.counters.nsOverflow = decide (s.counters.cntrNsec.toNat + 1 = cPeriod)

structure Inv (sb : Registers × Book) : Prop where
  pulse : sb.1.counters.nsOverflow = true → sb.1.counters.cntrNsec.toNat + 1 = cPeriod
  valid : sb.1.ppsValidInt = true → sb.2.TwoSeconds cPeriod
  second : sb.1.nsOverflow2nd = true → ¬sb.2.TwoSeconds cPeriod → Running cPeriod sb.1 sb.2

section Edge

variable {withExtClockInput cPeriod} {s : Registers} {b : Book} {i : PpsIn}
  (low : 4 ≤ cPeriod) (high : cPeriod ≤ 2 ^ 28)

variable (withExtClockInput s i) in
/-- The external synchronisation leaves the other registers alone. -/
theorem externalSync_counters : (externalSync withExtClockInput s i).counters = s.counters ∧
    (externalSync withExtClockInput s i).ppsValidInt = s.ppsValidInt ∧
    (externalSync withExtClockInput s i).nsOverflow2nd = s.nsOverflow2nd := by
  unfold externalSync
  split
  · exact ⟨rfl, rfl, rfl⟩
  · split
    · exact ⟨rfl, rfl, rfl⟩
    · split
      · exact ⟨rfl, rfl, rfl⟩
      · split <;> exact ⟨rfl, rfl, rfl⟩

include low high

/-- The pulse is set with the last value of a second only. -/
theorem step_pulse (c : Counters) (j : CounterIn) (pulse : c.nsOverflow = true → c.cntrNsec.toNat + 1 = cPeriod)
    (set : (c.step cPeriod j).nsOverflow = true) : (c.step cPeriod j).cntrNsec.toNat + 1 = cPeriod := by
  cases resets : j.resets with
  | true => simp [Counters.step, Counters.countNsec, resets] at set
  | false =>
      cases enabled : j.cntEn with
      | false =>
          rw [Counters.step_disabled resets enabled] at set ⊢
          exact pulse set
      | true =>
          cases sets : j.setsNsec with
          | true => simp [Counters.step, Counters.countNsec, resets, enabled, sets] at set
          | false =>
              obtain ⟨value, pulse, -⟩ := Counters.step_nsec low high resets sets enabled (s := c)
              rw [pulse, decide_eq_true_iff] at set
              rw [value, if_neg (by omega)]
              bv_omega

/-- While nothing is in progress and no two seconds have passed. -/
theorem risingEdge_running (second : s.nsOverflow2nd = true → Running cPeriod s b)
    (pulse : s.counters.nsOverflow = true → s.counters.cntrNsec.toNat + 1 = cPeriod)
    (invalid : s.ppsValidInt = false) (resets : i.commands.resets = false) (settled : inProgress s = false)
    (loud : s.counters.nsOverflow = true → (commands s i).cntEn = true ∧ (commands s i).setsNsec = false)
    (unset : s.nsOverflow2nd = true → ((commands s i).cntEn && (commands s i).setsNsec) = false) :
    ((risingEdge cPeriod s i).ppsValidInt = true → (b.next cPeriod s i).TwoSeconds cPeriod) ∧
      ((risingEdge cPeriod s i).nsOverflow2nd = true → Running cPeriod (risingEdge cPeriod s i)
        (b.next cPeriod s i)) := by
  have resets' : (commands s i).resets = false := resets
  have free : s.counters.adjustInProgressNsec = false := by
    simp only [inProgress, Bool.or_eq_false_iff] at settled
    exact settled.1.2
  have ends := Counters.nsec_eq low high s.counters.cntrNsec (k := 1) (by omega) (by omega)
  cases set : s.counters.nsOverflow with
  | true =>
      obtain ⟨enabled, sets⟩ := loud set
      have last := pulse set
      obtain ⟨value, pulse', -⟩ := Counters.step_nsec low high resets' sets enabled (s := s.counters)
      have noted : (b.next cPeriod s i).rolled = b.rolled ++ [b.clock] := by
        simp [Book.next, rolls, counts, Counters.atEnd, resets, resets', settled, enabled, sets, ends, last]
      have later : (b.next cPeriod s i).clock = b.clock + 1 := by simp [Book.next, counts, resets', enabled]
      rw [if_pos last, free] at value
      constructor
      · intro valid
        have counted : s.nsOverflow2nd = true := by
          simpa [risingEdge, resets, settled, invalid, set] using valid
        obtain ⟨t, inside, since⟩ := (second counted).since
        refine ⟨t, by simp [noted, inside], ?_⟩
        rw [noted]
        have same : t + cPeriod = b.clock := by omega
        simp [same]
      · intro _
        refine ⟨⟨b.clock, by simp [noted], ?_⟩, ?_, ?_⟩
        · rw [later]
          simp [risingEdge, value]
        · simp only [risingEdge, value]
          simp
          omega
        · simp only [risingEdge, value, pulse']
          rw [decide_eq_decide]
          simp
          omega
  | false =>
      constructor
      · intro valid
        simp [risingEdge, resets, settled, invalid, set] at valid
      · intro counted
        have before : s.nsOverflow2nd = true := by simpa [risingEdge, resets, settled, set] using counted
        obtain ⟨⟨t, inside, since⟩, below, pulse'⟩ := second before
        rw [set, eq_comm, decide_eq_false_iff_not] at pulse'
        have noted : (b.next cPeriod s i).rolled = b.rolled := by
          simp [Book.next, rolls, Counters.atEnd, ends, pulse', resets, settled]
        cases enabled : (commands s i).cntEn with
        | false =>
            have same : (risingEdge cPeriod s i).counters = s.counters := Counters.step_disabled resets' enabled
            refine ⟨⟨t, by rwa [noted], ?_⟩, ?_, ?_⟩
            · simpa [same, Book.next, counts, enabled] using since
            · rwa [same]
            · rw [same, set, eq_comm, decide_eq_false_iff_not]
              exact pulse'
        | true =>
            have sets : (commands s i).setsNsec = false := by simpa [enabled] using unset before
            obtain ⟨value, pulse'', -⟩ := Counters.step_nsec low high resets' sets enabled (s := s.counters)
            rw [if_neg pulse'] at value
            have up : (s.counters.cntrNsec + 1).toNat = s.counters.cntrNsec.toNat + 1 := by bv_omega
            refine ⟨⟨t, by rwa [noted], ?_⟩, ?_, ?_⟩
            · simp only [risingEdge, value, up, Book.next, counts, resets', enabled]
              simp
              omega
            · simp only [risingEdge, value, up]
              omega
            · simp only [risingEdge, value, pulse'', up]

omit low high in
/-- What was noted stays. -/
theorem Book.TwoSeconds.keep (two : b.TwoSeconds cPeriod) (stops : (i.commands.resets || inProgress s) = false) :
    (b.next cPeriod s i).TwoSeconds cPeriod := by
  obtain ⟨t, first, later⟩ := two
  have noted : ∀ x ∈ b.rolled, x ∈ (b.next cPeriod s i).rolled := by
    intro x inside
    simp only [Book.next, stops]
    split
    · simp_all
    · split
      · exact List.mem_append_left _ inside
      · exact inside
  exact ⟨t, noted t first, noted _ later⟩

theorem Inv.step {sb : Registers × Book} (inv : Inv cPeriod sb)
    (steady : Steady withExtClockInput cPeriod sb i) : Inv cPeriod (stepBook withExtClockInput cPeriod sb i) := by
  obtain ⟨s, b⟩ := sb
  obtain ⟨counters, valid, second⟩ := externalSync_counters withExtClockInput s i
  obtain ⟨pulse, sound, running⟩ := inv
  rw [Steady] at steady
  simp only [stepBook, Valid.step] at *
  generalize externalSync withExtClockInput s i = fallen at *
  rw [← counters] at pulse
  rw [← valid] at sound
  rw [← second] at running
  have later := step_pulse low high fallen.counters (commands fallen i) pulse
  cases stops : i.commands.resets || inProgress fallen with
  | true => exact ⟨later, fun shows => by simp [risingEdge, stops] at shows, fun counted => by
      simp [risingEdge, stops] at counted⟩
  | false =>
      by_cases two : b.TwoSeconds cPeriod
      · exact ⟨later, fun _ => two.keep stops, fun _ few => absurd (two.keep stops) few⟩
      · have invalid : fallen.ppsValidInt = false := by
          cases shown : fallen.ppsValidInt with
          | false => rfl
          | true => exact absurd (sound shown) two
        obtain ⟨resets, settled⟩ := Bool.or_eq_false_iff.mp stops
        obtain ⟨loud, unset⟩ := steady stops two
        have counting : fallen.nsOverflow2nd = true → Running cPeriod fallen b := by
          intro counted
          obtain ⟨since, below, here⟩ := running counted two
          exact ⟨by rwa [counters], by rwa [counters], by rwa [counters]⟩
        obtain ⟨shows, counts⟩ := risingEdge_running low high counting pulse invalid resets settled loud unset
        exact ⟨later, shows, fun counted _ => counts counted⟩

end Edge

/-- In every state of a run of steady cycles a valid pulse has two whole seconds behind it, all since the last reset,
adjustment or synchronisation; while one of these goes on none are counted, and the pulse is not valid. -/
theorem valid_after_two_seconds (low : 4 ≤ cPeriod) (high : cPeriod ≤ 2 ^ 28) (cycles : List PpsIn)
    (steady : Along (stepBook withExtClockInput cPeriod) (Steady withExtClockInput cPeriod) ({}, {}) cycles) :
    Sound cPeriod (run (stepBook withExtClockInput cPeriod) ({}, {}) cycles) ∧
    ∀ i, (i.commands.resets ||
        inProgress (externalSync withExtClockInput (run (stepBook withExtClockInput cPeriod) ({}, {}) cycles).1 i)) =
          true →
      ppsValidO (run (stepBook withExtClockInput cPeriod) ({}, {}) (cycles ++ [i])).1 = false ∧
        (run (stepBook withExtClockInput cPeriod) ({}, {}) (cycles ++ [i])).2.rolled = [] := by
  have start : Inv cPeriod (({}, {}) : Registers × Book) := by
    constructor <;> intro set <;> simp at set
  refine ⟨?_, ?_⟩
  · exact (steady.invariant (Inv cPeriod) (fun _ _ inv here => inv.step low high here) start).valid
  · intro i stops
    rw [run_append, run_cons, run_nil]
    simp only [stepBook, step, risingEdge, ppsValidO, Book.next]
    rw [stops]
    exact ⟨rfl, rfl⟩

/-- Two seconds of five cycles. -/
theorem valid_after_ten_cycles :
    ppsValidO (run (stepBook true 5) ({}, {}) (List.replicate 10 {})).1 = true ∧
    Sound 5 (run (stepBook true 5) ({}, {}) (List.replicate 10 {})) :=
  ⟨by decide, (valid_after_two_seconds true 5 (by decide) (by decide) (List.replicate 10 {}) (by decide)).1⟩

/-- The counter is set near the end of a second and stopped on the overflow pulse. -/
def stopped : List PpsIn :=
  [{ commands := { nsecSet := true, adjNsec := 124999998 } }, {}, { commands := { cntEn := false } },
    { commands := { cntEn := false } }]

/-- Two cycles of the same pulse are taken for two seconds. -/
theorem valid_without_second :
    ppsValidO (run (stepBook false 125000000) ({}, {}) stopped).1 = true ∧
    (run (stepBook false 125000000) ({}, {}) stopped).2.rolled = [] ∧
    ¬Sound 125000000 (run (stepBook false 125000000) ({}, {}) stopped) := by
  refine ⟨by decide, by decide, ?_⟩
  intro sound
  exact absurd (sound (by decide)) (by decide)

end WrCores.PpsGen.Valid
