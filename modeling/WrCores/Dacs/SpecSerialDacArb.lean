import WrCores.Clocked.Run
import WrCores.Dacs.SpecSerialDac

/-!
The arbiter spec_serial_dac_arb.vhd before its serialiser. A load strobe writes the value of its DAC and holds the state
machine in its state for the cycle, in `LOAD_DAC` with `dac_load` at 1. A watcher sees the strobes, the chip selects, the
serial clock and the data, and knows what was loaded last for each DAC when a chip select falls.
-/

namespace WrCores.Dacs.SerialDacArb

open Clocked

inductive ArbState
  | waitDone
  | loadDac
  | waitData
  deriving DecidableEq, Repr

structure In where
  val1I : BitVec 16
  load1I : Bool
  val2I : BitVec 16
  load2I : Bool
  deriving DecidableEq, Repr

def In.loads (i : In) : Bool := i.load1I || i.load2I

structure State (extra : Nat) where
  d1 : BitVec 16
  d2 : BitVec 16
  d1Ready : Bool
  d2Ready : Bool
  dacData : BitVec 16
  dacLoad : Bool
  dacCsSel : BitVec 2
  state : ArbState
  dac : SerialDac.State 16 extra 2
  deriving DecidableEq, Repr

variable {extra : Nat}

/-- `dac_data` has no reset. -/
structure AfterReset (s : State extra) : Prop where
  d1Ready : s.d1Ready = false
  d2Ready : s.d2Ready = false
  dacLoad : s.dacLoad = false
  state : s.state = .waitData
  dac : SerialDac.AfterReset s.dac

namespace State

variable (s : State extra) (i : In)

/-- The DAC gets the divider setting "001", a serial clock of ten cycles. -/
def dacIn : SerialDac.In 16 2 := ⟨s.dacData, s.dacCsSel, s.dacLoad, 1#3⟩

def load : State extra :=
  { s with
    d1Ready := s.d1Ready || i.load1I
    d1 := if i.load1I then i.val1I else s.d1
    d2Ready := s.d2Ready || i.load2I
    d2 := if i.load2I then i.val2I else s.d2 }

/-- `case state`; `xdone_o` is `dac_done`. -/
def arbitrate : State extra :=
  match s.state with
  | .waitData =>
      if s.d1Ready then
        { s with dacCsSel := 1#2, dacData := s.d1, dacLoad := true, d1Ready := false, state := .loadDac }
      else if s.d2Ready then
        { s with dacCsSel := 2#2, dacData := s.d2, dacLoad := true, d2Ready := false, state := .loadDac }
      else s
  | .loadDac => { s with dacLoad := false, state := .waitDone }
  | .waitDone => if !s.dac.sendingData then { s with state := .waitData } else s

def step : State extra := { (if i.loads then s.load i else s.arbitrate) with dac := s.dac.step s.dacIn }

end State

/-! ### The watcher -/

structure Transfer where
  csN : BitVec 2
  /-- What was loaded last for the DAC before its chip select fell. -/
  due : Option (BitVec 16)
  /-- The data at the falling edges of the serial clock. -/
  bits : List Bool
  deriving DecidableEq, Repr

structure Watch where
  last1 : Option (BitVec 16)
  last2 : Option (BitVec 16)
  current : Option Transfer
  /-- The transfers whose chip select has risen again. -/
  done : List Transfer
  deriving DecidableEq, Repr

/-- `dac_cs_n_o` with no DAC selected, and with one of them. -/
def csNone : BitVec 2 := 3#2

def csN1 : BitVec 2 := 2#2

def csN2 : BitVec 2 := 1#2

namespace Watch

variable (w : Watch)

def due (csN : BitVec 2) : Option (BitVec 16) :=
  if csN = csN1 then w.last1 else if csN = csN2 then w.last2 else none

def carried (csN : BitVec 2) : Option (List Bool) := (w.done.filter (·.csN = csN)).getLast?.map (·.bits)

def heard (i : In) : Watch :=
  { w with
    last1 := if i.load1I then some i.val1I else w.last1
    last2 := if i.load2I then some i.val2I else w.last2 }

def opened (csN : BitVec 2) : Option Transfer :=
  if csN = csNone then none else some ⟨csN, w.due csN, []⟩

/-- The chip selects, the serial clock and the data before and behind an edge. -/
def see (i : In) (s t : SerialDac.State 16 extra 2) : Watch :=
  match w.current with
  | none => { w.heard i with current := w.opened t.dacCsN }
  | some c =>
      let c' := if s.iDacClk && !t.iDacClk then { c with bits := c.bits ++ [s.dacSdata] } else c
      if t.dacCsN = c.csN then { w.heard i with current := some c' }
      else { w.heard i with current := w.opened t.dacCsN, done := w.done ++ [c'] }

end Watch

/-- The arbiter and its watcher. -/
def watched (m : State extra × Watch) (i : In) : State extra × Watch :=
  (m.1.step i, m.2.see i m.1.dac (m.1.step i).dac)

def start (s : State extra) : State extra × Watch := (s, ⟨none, none, none, []⟩)

/-- The extra zeros and the value, most significant bit first. -/
def frameBits (extra : Nat) (v : BitVec 16) : List Bool :=
  List.replicate extra false ++ (List.range 16).map v.getMsbD

/-- Every transfer done is whole, and with nothing to do the last ones have carried what was loaded last. -/
structure Delivers (m : State extra × Watch) : Prop where
  one : m.1.dac.dacCsN = csNone ∨ m.1.dac.dacCsN = csN1 ∨ m.1.dac.dacCsN = csN2
  whole : ∀ t ∈ m.2.done, (t.csN = csN1 ∨ t.csN = csN2) ∧ ∃ v, t.due = some v ∧ t.bits = frameBits extra v
  idle : m.1.state = .waitData → m.1.d1Ready = false → m.1.d2Ready = false →
    m.2.carried csN1 = m.2.last1.map (frameBits extra) ∧ m.2.carried csN2 = m.2.last2.map (frameBits extra)

/-- No strobe while the arbiter asserts the load. -/
def Apart (m : State extra × Watch) (i : In) : Prop := m.1.state = .loadDac → i.loads = false

instance (m : State extra × Watch) (i : In) : Decidable (Apart m i) := inferInstanceAs (Decidable (_ → _))

/-! ### What the watcher knows -/

def IsDac (c : BitVec 2) : Prop := c = csN1 ∨ c = csN2

def State.ready (s : State extra) (c : BitVec 2) : Bool := if c = csN1 then s.d1Ready else s.d2Ready

def State.waiting (s : State extra) (c : BitVec 2) : BitVec 16 := if c = csN1 then s.d1 else s.d2

/-- A value that waits is the last that was loaded. -/
def Holds (s : State extra) (w : Watch) : Prop := ∀ c, IsDac c → s.ready c = true → w.due c = some (s.waiting c)

/-- With nothing waiting the last transfer has carried what was loaded last. -/
def Settled (s : State extra) (w : Watch) (c : BitVec 2) : Prop :=
  s.ready c = false → w.carried c = (w.due c).map (frameBits extra)

section Watcher

variable {s : State extra} {w : Watch} {i : In} {c : BitVec 2}

theorem holds_load (holds : Holds s w) : Holds (s.load i) (w.heard i) := by
  rintro c (rfl | rfl) ready
  · have here := holds csN1 (.inl rfl)
    cases load : i.load1I <;> simp_all [State.ready, State.waiting, State.load, Watch.due, Watch.heard]
  · have here := holds csN2 (.inr rfl)
    cases load : i.load2I <;> simp_all [State.ready, State.waiting, State.load, Watch.due, Watch.heard, csN1, csN2]

theorem unready_load (dac : IsDac c) (none : (s.load i).ready c = false) :
    s.ready c = false ∧ (w.heard i).due c = w.due c := by
  rcases dac with rfl | rfl <;>
    simp_all [State.ready, State.load, Watch.due, Watch.heard, csN1, csN2]

theorem settled_load (dac : IsDac c) (settled : Settled s w c) : Settled (s.load i) (w.heard i) c := by
  intro none
  obtain ⟨before, same⟩ := unready_load (w := w) dac none
  rw [same]
  exact settled before

theorem carried_done {w' : Watch} {t : Transfer} (done : w'.done = w.done ++ [t]) :
    w'.carried c = if t.csN = c then some t.bits else w.carried c := by
  rw [Watch.carried, done, List.filter_append]
  by_cases this : t.csN = c <;> simp [this, Watch.carried]

theorem load_quiet (quiet : i.loads = false) : s.load i = s := by
  have none : i.load1I = false ∧ i.load2I = false := by simpa [In.loads] using quiet
  simp [State.load, none.1, none.2]

theorem heard_quiet (quiet : i.loads = false) : w.heard i = w := by
  have none : i.load1I = false ∧ i.load2I = false := by simpa [In.loads] using quiet
  simp [Watch.heard, none.1, none.2]

theorem see_due {d e : SerialDac.State 16 extra 2} : (w.see i d e).due c = (w.heard i).due c := by
  rw [Watch.see]
  cases w.current with
  | none => rfl
  | some t =>
      dsimp only
      split <;> rfl

end Watcher

/-! ### The invariant -/

structure Idle (s : State extra) (w : Watch) : Prop where
  load : s.dacLoad = false
  sending : s.dac.sendingData = false
  current : w.current = none
  settled : ∀ c, IsDac c → Settled s w c

/-- `dac_load` is up for the one cycle. -/
structure Loading (c : BitVec 2) (s : State extra) (w : Watch) : Prop where
  load : s.dacLoad = true
  sending : s.dac.sendingData = false
  current : w.current = none
  csSel : ~~~s.dacCsSel = c
  dac : IsDac c
  due : w.due c = some s.dacData
  settled : ∀ o, IsDac o → o ≠ c → Settled s w o

/-- `j` bits of the frame of `v` are out. -/
structure Transfers (v : BitVec 16) (j t : Nat) (s : State extra) (w : Watch) : Prop where
  load : s.dacLoad = false
  sending : SerialDac.Sending 1#3 (BitVec.ofNat extra 0 ++ v) j t s.dac
  dac : IsDac (~~~s.dac.csSelReg)
  current : w.current = some ⟨~~~s.dac.csSelReg, some v, (List.range j).map (BitVec.ofNat extra 0 ++ v).getMsbD⟩
  due : s.ready (~~~s.dac.csSelReg) = false → w.due (~~~s.dac.csSelReg) = some v
  settled : ∀ c, IsDac c → c ≠ ~~~s.dac.csSelReg → Settled s w c

def Phase (s : State extra) (w : Watch) : Prop :=
  match s.state with
  | .waitData => Idle s w
  | .loadDac => ∃ c, Loading c s w
  | .waitDone => Idle s w ∨ ∃ v j t, Transfers v j t s w

structure Inv (m : State extra × Watch) : Prop where
  holds : Holds m.1 m.2
  phase : Phase m.1 m.2
  whole : ∀ t ∈ m.2.done, IsDac t.csN ∧ ∃ v, t.due = some v ∧ t.bits = frameBits extra v

section Edges

variable {s : State extra} {w : Watch} {i : In} {v : BitVec 16} {c : BitVec 2} {j t : Nat}

theorem frameBits_eq (v : BitVec 16) :
    (List.range (extra + 16)).map (BitVec.ofNat extra 0 ++ v).getMsbD = frameBits extra v := by
  rw [List.range_add, List.map_append, List.map_map, frameBits]
  congr 1
  · refine List.eq_replicate_iff.2 ⟨by simp, fun b found => ?_⟩
    obtain ⟨k, inside, rfl⟩ := List.mem_map.mp found
    simp [BitVec.getMsbD_append, List.mem_range.mp inside]
  · refine List.map_congr_left fun k inside => ?_
    simp [BitVec.getMsbD_append]

theorem csN_idle {d : SerialDac.State 16 extra 2} (idle : d.sendingData = false) : d.dacCsN = csNone := by
  rw [SerialDac.State.dacCsN, idle]
  rfl

theorem csN_sending {d : SerialDac.State 16 extra 2} (sending : d.sendingData = true) : d.dacCsN = ~~~d.csSelReg := by
  rw [SerialDac.State.dacCsN, sending, if_pos rfl]

theorem csSel_kept (load : s.dacLoad = false) : (s.dac.step s.dacIn).csSelReg = s.dac.csSelReg := by
  simp [SerialDac.State.step, State.dacIn, load]

theorem dac_idle (idle : s.dac.sendingData = false) (load : s.dacLoad = false) :
    (s.dac.step s.dacIn).sendingData = false := by
  simp [SerialDac.State.step, SerialDac.State.nextSendingData, State.dacIn, idle, load]

theorem see_idle (current : w.current = none) {t : SerialDac.State 16 extra 2} (idle : t.sendingData = false) :
    w.see i s.dac t = w.heard i := by
  simp [Watch.see, current, csN_idle idle, Watch.opened, Watch.heard]

/-- Strobes leave an idle arbiter idle. -/
theorem idle_load (idle : Idle s w) (state : ArbState) :
    Idle { s.load i with state := state, dac := s.dac.step s.dacIn } (w.heard i) :=
  ⟨idle.load, dac_idle idle.sending idle.load, idle.current, fun c dac => settled_load dac (idle.settled c dac)⟩

theorem IsDac.ne (dac : IsDac c) : c ≠ csNone := by
  rcases dac with rfl | rfl <;> decide

theorem loading_step (loading : Loading c s w) (quiet : i.loads = false) :
    let s' : State extra := { s with dacLoad := false, state := .waitDone, dac := s.dac.step s.dacIn }
    Transfers s.dacData 0 0 s' (w.see i s.dac s'.dac) ∧
      w.see i s.dac s'.dac = { w with current := some ⟨c, some s.dacData, []⟩ } := by
  have load : s.dacIn.loadI = true := loading.load
  have sends : SerialDac.Sending 1#3 (BitVec.ofNat extra 0 ++ s.dacData) 0 0 (s.dac.step s.dacIn) :=
    SerialDac.load_sending load loading.sending (by omega)
  have csSel : (s.dac.step s.dacIn).csSelReg = s.dacCsSel := by
    simp only [SerialDac.State.step, load, loading.sending]
    rfl
  have csN : (s.dac.step s.dacIn).dacCsN = c := by rw [csN_sending sends.sending, csSel, loading.csSel]
  have seen : w.see i s.dac (s.dac.step s.dacIn) = { w with current := some ⟨c, some s.dacData, []⟩ } := by
    simp only [Watch.see, loading.current, csN, Watch.opened, loading.dac.ne, if_false, loading.due,
      heard_quiet quiet]
  obtain rfl := loading.csSel
  refine ⟨⟨rfl, sends, ?_, ?_, ?_, ?_⟩, seen⟩ <;> simp only [csSel, seen]
  · exact loading.dac
  · rfl
  · exact fun _ => loading.due
  · exact loading.settled

/-- The transfer that comes to its end is whole. -/
theorem transfers_end (transfers : Transfers v j t s w) (last : j = extra + 16)
    (rises : (s.dac.step s.dacIn).iDacClk = true) (ends : (s.dac.step s.dacIn).sendingData = false) :
    w.see i s.dac (s.dac.step s.dacIn) =
      { w.heard i with
        current := none, done := w.done ++ [⟨~~~s.dac.csSelReg, some v, frameBits extra v⟩] } := by
  simp [Watch.see, transfers.current, csN_idle ends, Watch.opened, transfers.dac.ne.symm, rises, last, frameBits_eq]

/-- The chip select stays low. -/
theorem transfers_on (transfers : Transfers v j t s w) (state : ArbState) {j' t' : Nat}
    (sends : SerialDac.Sending 1#3 (BitVec.ofNat extra 0 ++ v) j' t' (s.dac.step s.dacIn))
    (bits : (if s.dac.iDacClk && !(s.dac.step s.dacIn).iDacClk then
        (List.range j).map (BitVec.ofNat extra 0 ++ v).getMsbD ++ [s.dac.dacSdata]
      else (List.range j).map (BitVec.ofNat extra 0 ++ v).getMsbD) = (List.range j').map
        (BitVec.ofNat extra 0 ++ v).getMsbD) :
    Transfers v j' t' { s.load i with state := state, dac := s.dac.step s.dacIn }
        (w.see i s.dac (s.dac.step s.dacIn)) ∧
      (w.see i s.dac (s.dac.step s.dacIn)).done = w.done := by
  have csSel := csSel_kept transfers.load
  have seen : w.see i s.dac (s.dac.step s.dacIn) = { w.heard i with
      current := some ⟨~~~s.dac.csSelReg, some v, (List.range j').map (BitVec.ofNat extra 0 ++ v).getMsbD⟩ } := by
    simp only [Watch.see, transfers.current, csN_sending sends.sending, csSel, if_true, ← bits]
    split <;> rfl
  rw [seen]
  refine ⟨⟨transfers.load, sends, ?_, ?_, ?_, ?_⟩, rfl⟩
  · rw [csSel]
    exact transfers.dac
  · rw [csSel]
  · rw [csSel]
    intro none
    obtain ⟨before, same⟩ := unready_load (w := w) transfers.dac none
    exact same.trans (transfers.due before)
  · rw [csSel]
    exact fun c dac other => settled_load dac (transfers.settled c dac other)

theorem transfers_step (transfers : Transfers v j t s w) (state : ArbState) :
    let s' : State extra := { s.load i with state := state, dac := s.dac.step s.dacIn }
    let w' := w.see i s.dac s'.dac
    (∃ j t, Transfers v j t s' w') ∧ w'.done = w.done ∨
      Idle s' w' ∧ w'.done = w.done ++ [⟨~~~s.dac.csSelReg, some v, frameBits extra v⟩] := by
  have quiet : s.dacIn.loadI = false := transfers.load
  have same : s.dacIn.sclkDivselI = 1#3 := rfl
  have sending := transfers.sending
  cases clk : s.dac.iDacClk with
  | false =>
      obtain ⟨t', sends⟩ := SerialDac.low_step quiet same sending clk
      obtain ⟨on, done⟩ := transfers_on (i := i) transfers state sends (by simp [clk])
      exact .inl ⟨⟨_, _, on⟩, done⟩
  | true =>
      by_cases full : t = 2 ^ ((1#3).toNat + 1)
      · obtain ⟨falls, inside, bit, sends⟩ := SerialDac.fall_step quiet same sending clk full
        obtain ⟨on, done⟩ := transfers_on (i := i) transfers state sends (by simp [clk, falls, bit, List.range_succ])
        exact .inl ⟨⟨_, _, on⟩, done⟩
      · obtain ⟨stays, sends | ⟨last, ends⟩⟩ := SerialDac.high_step quiet same sending clk full
        · obtain ⟨on, done⟩ := transfers_on (i := i) transfers state sends (by simp [stays])
          exact .inl ⟨⟨_, _, on⟩, done⟩
        · refine .inr ?_
          simp only [transfers_end (i := i) transfers last stays ends]
          refine ⟨⟨transfers.load, ends, rfl, fun c dac none => ?_⟩, trivial⟩
          rw [carried_done rfl]
          by_cases this : ~~~s.dac.csSelReg = c
          · subst this
            obtain ⟨before, same⟩ := unready_load (w := w) dac none
            have last : (w.heard i).due (~~~s.dac.csSelReg) = some v := same.trans (transfers.due before)
            exact (if_pos rfl).trans (congrArg (Option.map (frameBits extra)) last).symm
          · rw [if_neg this]
            exact settled_load dac (transfers.settled c dac (Ne.symm this)) none

/-- The arbiter takes a value that waits, the first DAC's before the second's. -/
theorem arbitrate_wait (state : s.state = .waitData) (idle : Idle s w) (holds : Holds s w) :
    s.arbitrate = s ∨ s.arbitrate.state = .loadDac ∧ Holds s.arbitrate w ∧
      ∃ c, ∀ d : SerialDac.State 16 extra 2, d.sendingData = false → Loading c { s.arbitrate with dac := d } w := by
  have turned : ~~~1#2 = csN1 ∧ ~~~2#2 = csN2 := by decide
  cases first : s.d1Ready with
  | true =>
      have due := holds csN1 (.inl rfl) first
      have taken : s.arbitrate = { s with
          dacCsSel := 1#2, dacData := s.d1, dacLoad := true, d1Ready := false, state := .loadDac } := by
        simp [State.arbitrate, state, first]
      rw [taken]
      refine .inr ⟨rfl, ?_, csN1, fun d still => ⟨rfl, still, idle.current, turned.1, .inl rfl, due, ?_⟩⟩
      · rintro c (rfl | rfl) ready
        · exact Bool.noConfusion ready
        · exact holds csN2 (.inr rfl) ready
      · rintro c (rfl | rfl) other
        · exact absurd rfl other
        · exact idle.settled csN2 (.inr rfl)
  | false =>
      cases second : s.d2Ready with
      | true =>
          have due := holds csN2 (.inr rfl) second
          have taken : s.arbitrate = { s with
              dacCsSel := 2#2, dacData := s.d2, dacLoad := true, d2Ready := false, state := .loadDac } := by
            simp [State.arbitrate, state, first, second]
          rw [taken]
          refine .inr ⟨rfl, ?_, csN2, fun d still => ⟨rfl, still, idle.current, turned.2, .inr rfl, due, ?_⟩⟩
          · rintro c (rfl | rfl) ready
            · exact holds csN1 (.inl rfl) ready
            · exact Bool.noConfusion ready
          · rintro c (rfl | rfl) other
            · exact idle.settled csN1 (.inl rfl)
            · exact absurd rfl other
      | false => exact .inl (by simp [State.arbitrate, state, first, second])

theorem phase_wait (state : s.state = .waitData) : Phase s w ↔ Idle s w := by
  rw [Phase, state]

theorem phase_load (state : s.state = .loadDac) : Phase s w ↔ ∃ c, Loading c s w := by
  rw [Phase, state]

theorem phase_done (state : s.state = .waitDone) : Phase s w ↔ Idle s w ∨ ∃ v j t, Transfers v j t s w := by
  rw [Phase, state]

theorem inv_step (inv : Inv (s, w)) (apart : Apart (s, w) i) : Inv (watched (s, w) i) := by
  obtain ⟨holds, phase, whole⟩ := inv
  have keeps := holds_load (i := i) holds
  cases state : s.state with
  | waitData =>
      have idle := (phase_wait state).1 phase
      have still := dac_idle idle.sending idle.load
      cases loads : i.loads with
      | true =>
          have next : s.step i = { s.load i with dac := s.dac.step s.dacIn } := by simp [State.step, loads]
          rw [watched, next, see_idle idle.current still]
          refine ⟨keeps, (phase_wait ?_).2 (idle_load idle s.state), whole⟩
          exact state
      | false =>
          have next : s.step i = { s.arbitrate with dac := s.dac.step s.dacIn } := by simp [State.step, loads]
          rw [watched, next, see_idle idle.current still, heard_quiet loads]
          rcases arbitrate_wait state idle holds with same | ⟨there, held, c, loading⟩
          · rw [same]
            refine ⟨holds, (phase_wait ?_).2 ⟨idle.load, still, idle.current, idle.settled⟩, whole⟩
            exact state
          · refine ⟨held, (phase_load ?_).2 ⟨c, loading _ still⟩, whole⟩
            exact there
  | loadDac =>
      obtain ⟨c, loading⟩ := (phase_load state).1 phase
      have quiet : i.loads = false := apart state
      have next : s.step i = { s with dacLoad := false, state := .waitDone, dac := s.dac.step s.dacIn } := by
        simp [State.step, State.arbitrate, quiet, state]
      obtain ⟨transfers, seen⟩ := loading_step loading quiet
      rw [watched, next]
      refine ⟨?_, (phase_done rfl).2 (.inr ⟨_, _, _, transfers⟩), ?_⟩
      · rw [seen]
        exact holds
      · rw [seen]
        exact whole
  | waitDone =>
      rcases (phase_done state).1 phase with idle | ⟨v, j, t, transfers⟩
      · have still := dac_idle idle.sending idle.load
        cases loads : i.loads with
        | true =>
            have next : s.step i = { s.load i with dac := s.dac.step s.dacIn } := by simp [State.step, loads]
            rw [watched, next, see_idle idle.current still]
            refine ⟨keeps, (phase_done ?_).2 (.inl (idle_load idle s.state)), whole⟩
            exact state
        | false =>
            have next : s.step i = { s with state := .waitData, dac := s.dac.step s.dacIn } := by
              simp [State.step, State.arbitrate, loads, state, idle.sending]
            rw [watched, next, see_idle idle.current still, heard_quiet loads]
            exact ⟨holds, (phase_wait rfl).2 ⟨idle.load, still, idle.current, idle.settled⟩, whole⟩
      · have next : s.step i = { s.load i with dac := s.dac.step s.dacIn } := by
          cases loads : i.loads with
          | true => simp [State.step, loads]
          | false => simp [State.step, State.arbitrate, loads, state, transfers.sending.sending, load_quiet loads]
        have held : Holds { s.load i with dac := s.dac.step s.dacIn } (w.see i s.dac (s.dac.step s.dacIn)) :=
          fun c dac ready => see_due.trans (keeps c dac ready)
        rw [watched, next]
        rcases transfers_step (i := i) transfers s.state with ⟨⟨j', t', on⟩, same⟩ | ⟨idle, ended⟩
        · refine ⟨held, (phase_done ?_).2 (.inr ⟨v, j', t', on⟩), ?_⟩
          · exact state
          · exact same ▸ whole
        · refine ⟨held, (phase_done ?_).2 (.inl idle), ?_⟩
          · exact state
          · refine fun c found => ?_
            rcases List.mem_append.mp (ended ▸ found) with old | new
            · exact whole c old
            · obtain rfl := List.mem_singleton.mp new
              exact ⟨transfers.dac, v, rfl, rfl⟩

end Edges

theorem Inv.delivers {m : State extra × Watch} (inv : Inv m) : Delivers m := by
  obtain ⟨s, w⟩ := m
  refine ⟨?_, inv.whole, fun state first second => ?_⟩
  · have selected : s.dac.sendingData = false ∨ IsDac (~~~s.dac.csSelReg) := by
      have phase := inv.phase
      cases state : s.state with
      | waitData => exact .inl ((phase_wait state).1 phase).sending
      | loadDac =>
          obtain ⟨c, loading⟩ := (phase_load state).1 phase
          exact .inl loading.sending
      | waitDone =>
          rcases (phase_done state).1 phase with idle | ⟨v, j, t, transfers⟩
          · exact .inl idle.sending
          · exact .inr transfers.dac
    cases sending : s.dac.sendingData with
    | false => exact .inl (csN_idle sending)
    | true =>
        refine .inr ?_
        rw [csN_sending sending]
        exact selected.resolve_left (by simp [sending])
  · have idle := (phase_wait state).1 inv.phase
    exact ⟨idle.settled csN1 (.inl rfl) first, idle.settled csN2 (.inr rfl) second⟩

/-- Whatever strobes come, as long as none comes in `LOAD_DAC`. -/
theorem transfers_whole {s : State extra} {inputs : List In} (reset : AfterReset s)
    (apart : Along watched Apart (start s) inputs) : Delivers (run watched (start s) inputs) := by
  refine (apart.invariant Inv (fun m i inv here => inv_step inv here) ?_).delivers
  refine ⟨?_, (phase_wait reset.state).2 ⟨reset.dacLoad, reset.dac.sendingData, rfl, ?_⟩, by simp [start]⟩
  · rintro c (rfl | rfl) ready
    · exact absurd ready (by simp [State.ready, start, reset.d1Ready])
    · exact absurd ready (by simp [State.ready, start, reset.d2Ready, csN1, csN2])
  · rintro c (rfl | rfl) - <;> rfl

/-! ### A strobe in `LOAD_DAC` -/

def blank : State 0 := ⟨0#16, 0#16, false, false, 0#16, false, 0#2, .waitData, ⟨false, 0#12, true, 0#_, 0#_, 0#2⟩⟩

theorem blank_reset : AfterReset blank := ⟨rfl, rfl, rfl, rfl, rfl, rfl, rfl⟩

def noLoad : In := ⟨0#16, false, 0#16, false⟩

/-- A value for the first DAC, then after `n` cycles one for the second. -/
def twoValues (n : Nat) : List In :=
  ⟨0xa5a5#16, true, 0#16, false⟩ :: List.replicate n noLoad ++
    ⟨0#16, false, 0x3c3c#16, true⟩ :: List.replicate 400 noLoad

theorem transfers_whole_two :
    (run watched (start blank) (twoValues 0)).2.done.length = 2 ∧ Delivers
      (run watched (start blank) (twoValues 0)) :=
  ⟨by decide +kernel, transfers_whole blank_reset (by decide +kernel)⟩

/-- The second strobe comes in the second cycle behind the first: the first transfer is one bit short. -/
theorem transfer_short :
    ¬ ∀ (s : State 0) (inputs : List In), AfterReset s → Delivers (run watched (start s) inputs) := by
  intro all
  have whole := (all blank (twoValues 1) blank_reset).whole
  have short : 15 ∈ (run watched (start blank) (twoValues 1)).2.done.map (·.bits.length) := by decide +kernel
  obtain ⟨t, found, length⟩ := List.mem_map.mp short
  obtain ⟨-, v, -, bits⟩ := whole t found
  rw [bits, frameBits, List.length_append, List.length_replicate, List.length_map, List.length_range] at length
  exact absurd length (by decide)

end WrCores.Dacs.SerialDacArb
