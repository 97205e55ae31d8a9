import WrCores.Clocked.Preload
import WrCores.Endpoint.RxLine8

/-!
ep_tx_pcs_8bit connected to ep_rx_pcs_8bit, in the way of the 16-bit units. The receiver's
synchronisation detector has found the commas: `rx_even` is true where they are and changes
with every character.
-/

namespace WrCores.Endpoint

open Clocked

namespace TxPcs8

def preload (s : TxPcs8) (more : List (BitVec 18)) : TxPcs8 := { s with fifo := s.fifo.preload more }

def packed (i : TxPcsIn) : List (BitVec 18) := TxFifo.packed i.written

theorem preloads : Preloads step advance Fed preload packed where
  edge s i more fed := by
    have clear : fifoClearN i = true := clearN_of_plain fed.plain
    have some : s.reads i = true → s.fifo.entries ≠ [] := by
      intro read
      simp only [reads, Bool.and_eq_true, Bool.not_eq_true'] at read
      exact fed.honest read.2
    have fifo := s.fifo.read_preload (s.reads i) some i.written more
    have same : (s.preload (packed i ++ more)).advance i =
        { s.advance i with fifo := (s.fifo.preload (packed i ++ more)).read (s.reads i) } := by
      simp only [advance, clear]
      rfl
    have stepped : s.step i =
        { s.advance i with fifo := (s.fifo.read (s.reads i)).write i.written } := by
      simp only [step, advance, clear]
      rfl
    rw [same, packed, fifo, stepped]
    rfl
  kept s i more fed :=
    ⟨fed.plain, fun visible => by simp [preload, TxFifo.preload, fed.honest visible], fed.stocked,
      fed.inside⟩

/-- What the transmitter's surroundings do in a run that sends `frames`: they are written
to the FIFO one after the other, with any number of empty cycles in between, the FIFO has
an entry whenever it is read and throughout a frame, and if there is another frame to come,
its flags will show enough data before it starts. -/
structure Supplied (frames : List PcsFrame) (inputs : Nat → TxPcsIn) : Prop where
  fed : Throughout step Fed reset inputs
  written : ∃ bound, ∀ n ≥ bound, ((upTo inputs n).flatMap (·.written)).filter
    (fun fab => (fPackFifoContents fab true).isSome) = frames.flatMap PcsFrame.fabric
  refilled : ∀ t, (run step reset (upTo inputs t)).Between →
    (run step reset (upTo inputs t)).fifo.entries ≠ [] ∨ (∃ u, packed (inputs (t + u)) ≠ []) →
      ∃ u, (inputs (t + u)).enoughData = true ∧ (inputs (t + u + 1)).enoughData = true

variable {frames : List PcsFrame} {inputs : Nat → TxPcsIn}

theorem Supplied.entries (supplied : Supplied frames inputs) :
    ∃ bound, ∀ n ≥ bound, (upTo inputs n).flatMap packed = frames.flatMap PcsFrame.entries := by
  obtain ⟨bound, written⟩ := supplied.written
  exact ⟨bound, fun n late => TxFifo.packed_frames (written n late)⟩

theorem Supplied.served (supplied : Supplied frames inputs) :
    Served (reset.preload (frames.flatMap PcsFrame.entries)) inputs := by
  obtain ⟨bound, all⟩ := supplied.entries
  refine ⟨preloads.throughout supplied.fed all, fun t between some => ?_⟩
  rw [preloads.state_at supplied.fed all] at between some
  refine supplied.refilled t between ?_
  simp only [preload, TxFifo.preload, ne_eq, List.append_eq_nil_iff, not_and_or] at some
  rcases some with here | later
  · exact Or.inl here
  · right
    simp only [List.flatMap_eq_nil_iff, not_forall] at later
    obtain ⟨i, member, some⟩ := later
    obtain ⟨u, -, rfl⟩ := mem_upTo.1 member
    exact ⟨u, some⟩

/-- The characters at `phy_tx_data_o`, one for each cycle. -/
def line (inputs : Nat → TxPcsIn) (n : Nat) : List Code8 :=
  collect step (fun s _ => [s.fsm.out]) reset (upTo inputs n)

theorem line_add (inputs : Nat → TxPcsIn) (m n : Nat) :
    line inputs (m + n) = line inputs m ++
      collect step (fun s _ => [s.fsm.out]) (run step reset (upTo inputs m)) (upTo (after inputs m) n) := by
  rw [line, upTo_add, collect_append]
  rfl

theorem Supplied.line (supplied : Supplied frames inputs) (good : ∀ f ∈ frames, f.last ≠ none) :
    ∃ bound m codes, Line 0 frames codes ∧ ∀ r ≥ bound, ∃ idles, Idles (r / 2) idles ∧
      TxPcs8.line inputs (m + r + 1) = reset.fsm.out :: (codes ++ idles) := by
  obtain ⟨bound, all⟩ := supplied.entries
  have served := supplied.served
  have rests : Rests 0 (frames.flatMap PcsFrame.entries)
      (reset.preload (frames.flatMap PcsFrame.entries)) :=
    ⟨⟨rfl, rfl, by simp [preload, reset, TxFifo.preload]⟩, rfl, by decide⟩
  obtain ⟨m, line, rest⟩ := line_reaches frames good served rests
  refine ⟨bound, m, _, line, fun r late => ⟨_, rest_idle (served.after m) rest r, ?_⟩⟩
  have same := preloads.collect (S := fun s => [s.fsm.out]) (fun _ _ => rfl)
    (supplied.fed (m + r)) []
  rw [List.append_nil, all (m + r) (by omega)] at same
  rw [TxPcs8.line, upTo_snoc, collect_registered, ← same, upTo_add, collect_append]
  rfl

end TxPcs8

/-! ### The receiver -/

/-- The receiver in normal operation, with the timestamping unit. -/
structure RxRun8 where
  rx : RxPcs8
  stamps : Stamps
  deriving DecidableEq, Repr

namespace RxRun8

def reset (answers : List (Option (BitVec 32))) : RxRun8 := ⟨RxPcs8.reset, ⟨none, answers⟩⟩

/-- A character, with `rx_even`. -/
def step (s : RxRun8) (c : Code8 × Bool) : RxRun8 :=
  let rx := s.rx.step { s.stamps.input with code := c.1, rxEven := c.2 }
  ⟨rx, s.stamps.next rx.fsm.fab.sof⟩

/-- What is on `pcs_fab_o`. -/
def shown (s : RxRun8) (_ : Code8 × Bool) : List FabEvent := s.rx.fsm.fab.events

def core (s : RxRun8) : RxCore8 := ⟨s.rx.fsm, s.stamps⟩

/-- The receiver is two edges late. -/
theorem shown_late (s : RxRun8) (codes : List (Code8 × Bool)) (c c' : Code8 × Bool) :
    collect step shown s (codes ++ [c, c']) =
      s.core.events ++ collect RxCore8.step RxCore8.brings s.core
        (s.rx.d :: codes.map .decode) := by
  have delayed := collect_delayed RxCore8.step step core (fun s => s.rx.d) .decode
    (fun _ _ => rfl) (fun _ _ => rfl) RxCore8.events s (codes ++ [c, c'])
  have registers : (s.rx.d :: (codes ++ [c, c']).map RxDecoded8.decode).take (codes ++ [c, c']).length =
      (s.rx.d :: codes.map .decode) ++ [.decode c] := by
    simp [List.take_append]
  rw [registers, collect_registered] at delayed
  exact delayed

end RxRun8

/-- A receiver at rest, on frames and idle pairs behind the register's first value. -/
theorem RxRun8.heard {frames : List PcsFrame} {answers : List (Option (BitVec 32))}
    (each : answers.length = frames.length) {codes idles : List Code8} (line : TxPcs8.Line 0 frames codes)
    (idle : TxPcs8.Idles 4 idles) (c c' : Code8) :
    (collect RxRun8.step RxRun8.shown (RxRun8.reset answers)
        (marked false (TxPcs8.reset.fsm.out :: (codes ++ idles) ++ [c, c']))).map .trim =
      (frames.zip answers).flatMap fun p => p.1.received8 p.2 := by
  obtain ⟨even, split⟩ := marked_split false (TxPcs8.reset.fsm.out :: (codes ++ idles)) [c, c']
  -- the registers of the receiver and of the transmitter hold nothing yet
  have start : RxCore8.Waits 0#3 ⟨none, answers⟩ (RxRun8.reset answers).core := ⟨rfl, rfl, rfl, rfl⟩
  obtain ⟨waits₁, silent₁⟩ := start.quiet (d := (RxRun8.reset answers).rx.d) rfl rfl
  obtain ⟨waits₂, silent₂⟩ := waits₁.quiet (d := .decode (TxPcs8.reset.fsm.out, false)) (by decide) (by decide)
  obtain ⟨evs, stamps, owes, heard⟩ := RxCore8.line_run line (.nothing rfl waits₂) (by simp) answers rfl each
  have ends := owes.idles_run idle fun _ => by decide
  have decoded : (marked false (TxPcs8.reset.fsm.out :: (codes ++ idles))).map RxDecoded8.decode =
      .decode (TxPcs8.reset.fsm.out, false) :: (RxCore8.decoded codes ++ RxCore8.decoded idles) := by
    rw [← RxCore8.decoded_append _ _ line.aligned.1]
    rfl
  rw [split]
  change ((collect RxRun8.step RxRun8.shown (RxRun8.reset answers) (_ ++ [(c, even), (c', !even)])).map _) = _
  rw [RxRun8.shown_late, decoded, collect_cons, collect_cons, collect_append, silent₁, silent₂, ends]
  exact heard

/-- The receiver gives back every frame that is written to the transmitter, and the line
has a comma behind each of them, at an even position as all commas are. -/
theorem frames_received8 (frames : List PcsFrame) (good : ∀ f ∈ frames, f.last ≠ none)
    (answers : List (Option (BitVec 32))) (each : answers.length = frames.length)
    (inputs : Nat → TxPcsIn) (supplied : TxPcs8.Supplied frames inputs) :
    (∃ bound, ∀ n ≥ bound, (collect RxRun8.step RxRun8.shown (RxRun8.reset answers)
        (marked false (TxPcs8.line inputs n))).map .trim =
          (frames.zip answers).flatMap fun p => p.1.received8 p.2) ∧
      (∃ bound codes, TxPcs8.Line 0 frames codes ∧ ∀ n ≥ bound, ∃ idles, TxPcs8.Idles 4 idles ∧
        TxPcs8.line inputs n = TxPcs8.reset.fsm.out :: (codes ++ idles)) ∧
      ∀ n, ∀ p ∈ marked false (TxPcs8.line inputs n), p.1 = .comma → p.2 = true := by
  obtain ⟨bound, m, codes, line, tail⟩ := supplied.line good
  have late : ∀ n ≥ m + bound + 9, ∃ idles, TxPcs8.Idles 4 idles ∧
      TxPcs8.line inputs n = TxPcs8.reset.fsm.out :: (codes ++ idles) := by
    intro n long
    obtain ⟨r, rfl, enough⟩ : ∃ r, n = m + r + 1 ∧ bound + 8 ≤ r := ⟨n - m - 1, by omega, by omega⟩
    obtain ⟨idles, ⟨pairs, half, ⟨seconds, least, idle⟩, rest⟩, sent⟩ := tail r (by omega)
    exact ⟨idles, ⟨pairs, half, ⟨seconds, by omega, idle⟩, rest⟩, sent⟩
  refine ⟨⟨m + bound + 11, fun n long => ?_⟩, ⟨_, codes, line, late⟩, fun n p member comma => ?_⟩
  · obtain ⟨k, rfl, enough⟩ : ∃ k, n = k + 2 ∧ m + bound + 9 ≤ k := ⟨n - 2, by omega, by omega⟩
    obtain ⟨idles, idle, sent⟩ := late k enough
    rw [TxPcs8.line_add, sent]
    exact RxRun8.heard each line idle _ _
  · -- a longer line begins with this one
    obtain ⟨idles, idle, sent⟩ := late (n + (m + bound + 9)) (by omega)
    obtain ⟨even, split⟩ := marked_split false (TxPcs8.line inputs n) (collect TxPcs8.step
      (fun s _ => [s.fsm.out]) (run TxPcs8.step TxPcs8.reset (upTo inputs n)) (upTo (after inputs n) (m + bound + 9)))
    have whole : p ∈ marked false (TxPcs8.reset.fsm.out :: (codes ++ idles)) := by
      rw [← sent, TxPcs8.line_add, split]
      exact List.mem_append_left _ member
    rw [marked, Bool.not_false, marked_append _ _ _ line.aligned.1, List.mem_cons, List.mem_append] at whole
    rcases whole with rfl | here | there
    · exact absurd comma (by decide)
    · exact line.aligned.2 p here comma
    · exact idle.commas p there comma

namespace TxPcs8

/-- A frame on its way through a FIFO with a threshold of 16. -/
def oddInputs : Nat → TxPcsIn := PcsFrame.oddFrame.feed 17 60 92

theorem oddFrame_supplied : Supplied [PcsFrame.oddFrame] oddInputs := by
  have length : PcsFrame.oddFrame.fabric.length = 34 := by decide
  have idle : ∀ n ≥ 120, oddInputs n = { fifoEmpty := true, fifoAlmostEmpty := true } := fun n late =>
    PcsFrame.feed_idle _ (by omega) (by omega) (by omega)
  -- behind the frame nothing is left in the FIFO when the transmitter looks at it again
  have always : Throughout step (fun s i => Fed s i ∧ (i.written = [] → i.enoughData = false →
      s.Between → s.fifo.entries = [])) reset oddInputs :=
    throughout_of_settled (m := 120) Nat.two_pos (by decide +kernel) idle (by decide +kernel)
      (by decide +kernel)
  refine ⟨fun n => (always n).imp fun _ _ both => both.1, ⟨34, fun n late => ?_⟩, fun t between left => ?_⟩
  · rw [oddInputs, PcsFrame.feed_written, List.take_of_length_le (by omega)]
    decide
  · rcases Nat.lt_trichotomy t 59 with early | rfl | late
    · refine ⟨58 - t, ?_⟩
      rw [Nat.add_sub_cancel' (by omega)]
      decide
    · -- the last cycle with enough data is inside the frame
      exact absurd between (by decide +kernel)
    · exfalso
      have written : ∀ u, (oddInputs (t + u)).written = [] := fun u =>
        PcsFrame.feed_late _ (by omega)
      have low : (oddInputs t).enoughData = false := PcsFrame.feed_low _ (by omega)
      rcases left with some | ⟨u, some⟩
      · exact some ((always.at_edge t).2 (written 0) low between)
      · exact some (by simp [packed, written u, TxFifo.packed])

end TxPcs8

theorem frames_received8_odd :
    (∃ bound, ∀ n ≥ bound, (collect RxRun8.step RxRun8.shown (RxRun8.reset [none])
        (marked false (TxPcs8.line TxPcs8.oddInputs n))).map .trim =
          PcsFrame.oddFrame.received8 none) ∧
      ∀ n, ∀ p ∈ marked false (TxPcs8.line TxPcs8.oddInputs n), p.1 = .comma → p.2 = true := by
  obtain ⟨whole, -, commas⟩ := frames_received8 [PcsFrame.oddFrame] (by decide) [none] rfl TxPcs8.oddInputs
    TxPcs8.oddFrame_supplied
  exact ⟨by simpa using whole, commas⟩

end WrCores.Endpoint
