import WrCores.Streamers.Rx

/-!
xrx_streamer and the order of its buffer's pointers. `fifo_accept` reaches the buffer a
cycle late and `fifo_drop` does not, so that an accept of one cycle and a drop of the next
arrive together.
-/

namespace WrCores.Streamers.Rx

open Clocked

variable {k w : Nat} (gen : Generics) (cfg : RxStreamerCfg)

/-- The buffer is told to accept and to drop the same words. -/
def Swaps (s : Rx k w) (i : RxIn) : Prop := s.buffer.Swaps (s.bufferIn gen i)

instance (s : Rx k w) (i : RxIn) : Decidable (s.Swaps gen i) :=
  inferInstanceAs (Decidable (s.buffer.Swaps _))

def shown (s : Rx k w) (_ : RxIn) : List (RxWord k) := s.buffer.dO.toList

def commits (s : Rx k w) (i : RxIn) : List (RxWord k) := s.buffer.commits (s.bufferIn gen i)

theorem ordered_step_iff (s : Rx k w) (i : RxIn) (ordered : s.buffer.Ordered) :
    (s.step gen cfg i).buffer.Ordered ↔ ¬ s.Swaps gen i := by
  constructor
  · exact fun after swaps => s.buffer.swap_disorders _ ordered swaps after
  · exact fun apart => s.buffer.step_ordered _ ordered apart

/-- In a run the pointers stay in order, and the words shown are the committed ones, each
once and in order, exactly if accept and drop never meet over uncommitted words. -/
theorem committed_once_iff (inputs : List RxIn) :
    (Always (step gen cfg) (·.buffer.Ordered) (reset k w) inputs ∧
      collect (step gen cfg) shown (reset k w) inputs ++
          (run (step gen cfg) (reset k w) inputs).buffer.pending =
        collect (step gen cfg) (commits gen) (reset k w) inputs) ↔
      Along (step gen cfg) (fun s i => ¬ s.Swaps gen i) (reset k w) inputs := by
  have start : (reset k w).buffer.Ordered := DroppingBuffer.reset_ordered _
  have order : Always (step gen cfg) (·.buffer.Ordered) (reset k w) inputs ↔
      Along (step gen cfg) (fun s i => ¬ s.Swaps gen i) (reset k w) inputs :=
    always_iff_along _ (fun s i ordered => ordered_step_iff gen cfg s i ordered) start
  constructor
  · exact fun both => order.1 both.1
  · intro apart
    refine ⟨order.2 apart, ?_⟩
    have balance := apart.conserves (·.buffer.Ordered) (·.buffer.pending) (commits gen) shown
      (fun s i ordered here => (ordered_step_iff gen cfg s i ordered).2 here)
      (fun s i ordered here => s.buffer.commits_balanced _ ordered here) start
    have nothing : (reset k w).buffer.pending = [] := DroppingBuffer.reset_pending _
    rw [nothing, List.nil_append] at balance
    exact balance.symm

/-- A cycle of a frame whose CRC is right wherever it is looked at. -/
def cycle (fab : Fabric.Decoded) : RxIn := ⟨fab, true, false, 0, false⟩

def wordCycle (data : BitVec 16) : RxIn :=
  cycle ⟨Fabric.cWrfData, data, true, false, false, false, false⟩

/-- A frame for the default configuration: addresses, ethertype, timestamp, sequence
number, two half-words, and a header of a next block behind which the frame is cut off. -/
def cutFrame : List RxIn :=
  cycle ⟨Fabric.cWrfData, 0, false, true, false, false, false⟩ ::
    ([1, 2, 3, 4, 5, 6, 0xdbff, 0, 0, 0, 8, 9, 0xcafe, 0x8001].map wordCycle ++
      List.replicate 3 (cycle ⟨Fabric.cWrfData, 0, false, false, true, false, false⟩))

/-- The accept of the block and the drop of the frame arrive together, over the block's
word: `boundary` and `wr_ptr` change places. -/
theorem pointers_swapped :
    ¬ (run (step ⟨false, 0⟩ cRxStreamerCfgDefault) (reset 2 3) cutFrame).buffer.Ordered := by
  decide

end WrCores.Streamers.Rx
