import WrCores.Clocked.Preload
import WrCores.Endpoint.RxLine16

/-!
ep_tx_pcs_16bit connected to ep_rx_pcs_16bit. What the transmitter puts on the line is
known for a FIFO that holds all its entries from the start; `Preloads` carries it over to
one that is written as the run goes on.
-/

namespace WrCores.Endpoint

open Clocked

namespace TxPcs16

def preload (s : TxPcs16) (more : List (BitVec 18)) : TxPcs16 := { s with fifo := s.fifo.preload more }

def packed (i : TxPcsIn) : List (BitVec 18) := TxFifo.packed i.written

theorem preloads : Preloads step advance Fed preload packed where
  edge s i more fed := by
    have clear : s.fifoClearN i = true := clearN_of_plain fed.plain
    have clear' : (s.preload (packed i ++ more)).fifoClearN i = true := clearN_of_plain fed.plain
    have some : s.reads i = true → s.fifo.entries ≠ [] := by
      intro read
      simp only [reads, Bool.and_eq_true, Bool.not_eq_true'] at read
      exact fed.honest read.2
    have fifo := s.fifo.read_preload (s.reads i) some i.written more
    have same : (s.preload (packed i ++ more)).advance i =
        { s.advance i with fifo := (s.fifo.preload (packed i ++ more)).read (s.reads i) } := by
      simp only [advance, clear, clear']
      rfl
    have stepped : s.step i =
        { s.advance i with fifo := (s.fifo.read (s.reads i)).write i.written } := by
      simp only [step, advance, clear]
      rfl
    rw [same, packed, fifo, stepped]
    rfl
  kept s i more fed :=
    ⟨fed.plain, fun visible => by simp [preload, TxFifo.preload, fed.honest visible], fed.stocked⟩

/-- What the transmitter's surroundings do in a run that sends `frames`: they are written
to the FIFO one after the other, with any number of empty cycles in between, the FIFO has
an entry whenever it is read, and if there is another frame to come, its flags will show
enough data before it starts. -/
structure Supplied (frames : List PcsFrame) (inputs : Nat → TxPcsIn) : Prop where
  fed : Throughout step Fed reset inputs
  written : ∃ bound, ∀ n ≥ bound, ((upTo inputs n).flatMap (·.written)).filter
    (fun fab => (fPackFifoContents fab true).isSome) = frames.flatMap PcsFrame.fabric
  refilled : ∀ t, (run step reset (upTo inputs t)).Between →
    (run step reset (upTo inputs t)).fifo.entries ≠ [] ∨ (∃ u, packed (inputs (t + u)) ≠ []) →
      ∃ u, (inputs (t + u)).enoughData = true

variable {frames : List PcsFrame} {inputs : Nat → TxPcsIn}

theorem Supplied.entries (supplied : Supplied frames inputs) :
    ∃ bound, ∀ n ≥ bound, (upTo inputs n).flatMap packed = frames.flatMap PcsFrame.entries := by
  obtain ⟨bound, written⟩ := supplied.written
  exact ⟨bound, fun n late => TxFifo.packed_frames (written n late)⟩

theorem Supplied.served (supplied : Supplied frames inputs) :
    Served (reset.preload (frames.flatMap PcsFrame.entries)) inputs := by
  obtain ⟨bound, all⟩ := supplied.entries
  refine ⟨preloads.throughout supplied.fed all, fun t between some => ?_⟩
  rw [preloads.state_at supplied.fed all] at between some
  refine supplied.refilled t between ?_
  simp only [preload, TxFifo.preload, ne_eq, List.append_eq_nil_iff, not_and_or] at some
  rcases some with here | later
  · exact Or.inl here
  · right
    simp only [List.flatMap_eq_nil_iff, not_forall] at later
    obtain ⟨i, member, some⟩ := later
    obtain ⟨u, -, rfl⟩ := mem_upTo.1 member
    exact ⟨u, some⟩

/-- The codes at `phy_tx_data_o`, one for each cycle. -/
def line (inputs : Nat → TxPcsIn) (n : Nat) : List Code16 :=
  collect step (fun s _ => [s.fsm.out]) reset (upTo inputs n)

theorem line_snoc (inputs : Nat → TxPcsIn) (n : Nat) :
    line inputs (n + 1) = line inputs n ++ [(run step reset (upTo inputs n)).fsm.out] := by
  rw [line, upTo_snoc, collect_append]
  rfl

theorem Supplied.line (supplied : Supplied frames inputs) :
    ∃ bound m codes, Line 0 frames codes ∧ ∀ r ≥ bound, ∃ idles, IdleRun r idles ∧
      TxPcs16.line inputs (m + r + 1) = reset.fsm.out :: (codes ++ idles) := by
  obtain ⟨bound, all⟩ := supplied.entries
  have served := supplied.served
  have rests : Rests 0 (frames.flatMap PcsFrame.entries)
      (reset.preload (frames.flatMap PcsFrame.entries)) :=
    ⟨rfl, rfl, by decide, rfl, rfl, by simp [preload, reset, TxFifo.preload]⟩
  obtain ⟨m, line, rest⟩ := line_reaches frames served rests
  refine ⟨bound, m, _, line, fun r late => ⟨_, rest_idle (served.after m) rest r, ?_⟩⟩
  have same := preloads.collect (S := fun s => [s.fsm.out]) (fun _ _ => rfl)
    (supplied.fed (m + r)) []
  rw [List.append_nil, all (m + r) (by omega)] at same
  rw [TxPcs16.line, upTo_snoc, collect_registered, ← same, upTo_add, collect_append]
  rfl

end TxPcs16

/-! ### The receiver -/

/-- The receiver in normal operation, with the timestamping unit. -/
structure RxRun16 where
  rx : RxPcs16
  stamps : Stamps
  deriving DecidableEq, Repr

namespace RxRun16

def reset (answers : List (Option (BitVec 32))) : RxRun16 := ⟨RxPcs16.reset, ⟨none, answers⟩⟩

def step (s : RxRun16) (c : Code16) : RxRun16 :=
  let rx := s.rx.step { s.stamps.input with code := c }
  ⟨rx, s.stamps.next rx.fsm.fab.sof⟩

/-- What is on `pcs_fab_o`. -/
def shown (s : RxRun16) (_ : Code16) : List FabEvent := s.rx.fsm.fab.events

def core (s : RxRun16) : RxCore16 := ⟨s.rx.fsm, s.stamps⟩

/-- The receiver is two edges late. -/
theorem shown_late (s : RxRun16) (codes : List Code16) (c c' : Code16) :
    collect step shown s (codes ++ [c, c']) =
      s.core.events ++ collect RxCore16.step RxCore16.brings s.core
        (s.rx.d :: codes.map .decode) := by
  have delayed := collect_delayed RxCore16.step step core (fun s => s.rx.d) .decode
    (fun _ _ => rfl) (fun _ _ => rfl) RxCore16.events s (codes ++ [c, c'])
  have registers : (s.rx.d :: (codes ++ [c, c']).map RxDecoded16.decode).take (codes ++ [c, c']).length =
      (s.rx.d :: codes.map .decode) ++ [.decode c] := by
    simp [List.take_append]
  rw [registers, collect_registered] at delayed
  exact delayed

end RxRun16

/-- The receiver gives back every frame that is written to the transmitter: at some time
all of them have come out, and nothing else ever does. -/
theorem frames_received16 (frames : List PcsFrame) (answers : List (Option (BitVec 32)))
    (each : answers.length = frames.length) (inputs : Nat → TxPcsIn)
    (supplied : TxPcs16.Supplied frames inputs) :
    ∃ bound, ∀ n ≥ bound,
      collect RxRun16.step RxRun16.shown (RxRun16.reset answers) (TxPcs16.line inputs n) =
        (frames.zip answers).flatMap fun p => p.1.received16 p.2 := by
  obtain ⟨bound, m, codes, line, tail⟩ := supplied.line
  refine ⟨m + bound + 7, fun n late => ?_⟩
  obtain ⟨r, rfl, long⟩ : ∃ r, n = m + r + 1 + 2 ∧ bound + 4 ≤ r := ⟨n - m - 3, by omega, by omega⟩
  obtain ⟨idles, idle, sent⟩ := tail r (by omega)
  rw [TxPcs16.line_snoc, TxPcs16.line_snoc, List.append_assoc, List.singleton_append,
    RxRun16.shown_late, sent]
  -- the registers of the receiver and of the transmitter hold nothing yet
  have start : RxCore16.Waits 0#3 ⟨none, answers⟩ (RxRun16.reset answers).core := ⟨rfl, rfl, rfl, rfl⟩
  obtain ⟨waits₁, silent₁⟩ := start.quiet (d := (RxRun16.reset answers).rx.d) rfl rfl
  obtain ⟨waits₂, silent₂⟩ := waits₁.quiet (d := .decode TxPcs16.reset.fsm.out) (by decide) (by decide)
  obtain ⟨evs, stamps, owes, heard⟩ := RxCore16.line_run line (.nothing rfl waits₂) (by simp) answers rfl each
  obtain ⟨-, rest⟩ := owes.idle_run idles idle.2 fun _ => by
    have := idle.1
    omega
  rw [List.map_cons, List.map_append, collect_cons, collect_cons, collect_append, silent₁, silent₂, rest,
    heard]
  rfl

namespace TxPcs16

/-- A frame on its way through a FIFO with a threshold of 20. -/
def oddInputs : Nat → TxPcsIn := PcsFrame.oddFrame.feed 21 40 60

theorem oddFrame_supplied : Supplied [PcsFrame.oddFrame] oddInputs := by
  have length : PcsFrame.oddFrame.fabric.length = 34 := by decide
  have idle : ∀ n ≥ 70, oddInputs n = { fifoEmpty := true, fifoAlmostEmpty := true } := fun n late =>
    PcsFrame.feed_idle _ (by omega) (by omega) (by omega)
  -- behind the frame nothing is left in the FIFO when the transmitter looks at it again
  have always : Throughout step (fun s i => Fed s i ∧ (i.written = [] → i.enoughData = false →
      s.Between → s.fifo.entries = [])) reset oddInputs :=
    throughout_of_settled (m := 70) Nat.one_pos (by decide) idle (by decide)
      (by decide)
  refine ⟨fun n => (always n).imp fun _ _ both => both.1, ⟨34, fun n late => ?_⟩, fun t between left => ?_⟩
  · rw [oddInputs, PcsFrame.feed_written, List.take_of_length_le (by omega)]
    decide
  · by_cases early : t < 40
    · refine ⟨39 - t, ?_⟩
      rw [Nat.add_sub_cancel' (by omega)]
      decide
    · exfalso
      have late : ∀ u, (oddInputs (t + u)).written = [] := fun u =>
        PcsFrame.feed_late _ (by omega)
      have low : (oddInputs t).enoughData = false := PcsFrame.feed_low _ (by omega)
      rcases left with some | ⟨u, some⟩
      · exact some ((always.at_edge t).2 (late 0) low between)
      · exact some (by simp [packed, late u, TxFifo.packed])

end TxPcs16

theorem frames_received16_odd : ∃ bound, ∀ n ≥ bound,
    collect RxRun16.step RxRun16.shown (RxRun16.reset [some 0x12345678])
        (TxPcs16.line TxPcs16.oddInputs n) =
      PcsFrame.oddFrame.received16 (some 0x12345678) := by
  have whole := frames_received16 [PcsFrame.oddFrame] [some 0x12345678] rfl TxPcs16.oddInputs
    TxPcs16.oddFrame_supplied
  simpa using whole

end WrCores.Endpoint
