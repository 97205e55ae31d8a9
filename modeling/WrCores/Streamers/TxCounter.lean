import Mathlib.Tactic
import WrCores.Streamers.Tx

/-!
`p_frame_counter` of xtx_streamer over whole runs: the counter has six bits, whatever the size of the buffer.
-/

namespace WrCores.Streamers.Tx

open Clocked

variable {k : Nat} (gen : TxGenerics) (cfg : TxStreamerCfg)

/-- All the words in the buffer. -/
def stored (s : Tx k) : List (TxEntry k) := s.shown ++ s.behind

/-- The blocks whose last word is in the buffer. -/
def blocks (s : Tx k) : Nat := s.stored.countP (·.last)

/-- What `p_frame_counter` is for. -/
def Counts (threshold : Nat) (s : Tx k) (i : TxIn k) : Prop :=
  s.bufFrameCount.toNat = s.blocks ∧
    (s.txThresholdHit i = true ↔ threshold ≤ s.stored.length ∧ 0 < s.blocks)

variable {gen cfg}

theorem stored_step (s : Tx k) (i : TxIn k) :
    (s.step gen cfg i).stored = (if s.txFifoRd gen i.dreq then s.stored.tail else s.stored) ++ written i := by
  have ends : ∀ front : List (TxEntry k), front ++ (s.behind ++ written i).take i.reveal ++
      (s.behind ++ written i).drop i.reveal = front ++ s.behind ++ written i := by
    intro front
    rw [List.append_assoc, List.take_append_drop, ← List.append_assoc]
  simp only [step, stored]
  rw [ends]
  cases reads : s.txFifoRd gen i.dreq with
  | false => rfl
  | true =>
      rw [txFifoRd, Bool.and_eq_true, Bool.not_eq_true', txFifoEmpty] at reads
      obtain ⟨e, rest, shown⟩ := List.exists_cons_of_ne_nil (List.isEmpty_eq_false_iff.mp reads.2)
      rw [if_pos rfl, if_pos rfl, shown]
      rfl

/-- What is read is the first word. -/
theorem blocks_read {s : Tx k} {i : TxIn k} (reads : s.txFifoRd gen i.dreq = true) :
    s.blocks = s.stored.tail.countP (·.last) + s.txFifoLast.toNat := by
  rw [txFifoRd, Bool.and_eq_true, Bool.not_eq_true', txFifoEmpty] at reads
  obtain ⟨e, rest, shown⟩ := List.exists_cons_of_ne_nil (List.isEmpty_eq_false_iff.mp reads.2)
  rw [blocks, stored, txFifoLast, shown, List.cons_append, List.countP_cons, List.tail_cons, List.head?_cons,
    Option.map_some, Option.getD_some]
  cases e.last <;> rfl

theorem blocks_written (i : TxIn k) : (written i).countP (·.last) = (txFifoWe i && i.txLastP1).toNat := by
  rw [written]
  cases txFifoWe i with
  | false => rfl
  | true => cases i.txLastP1 <;> simp

theorem count_step {s : Tx k} (i : TxIn k) (count : s.bufFrameCount = BitVec.ofNat 6 s.blocks) :
    (s.step gen cfg i).bufFrameCount = BitVec.ofNat 6 (s.step gen cfg i).blocks := by
  have next : (s.step gen cfg i).blocks = (if s.txFifoRd gen i.dreq then s.stored.tail else s.stored).countP (·.last)
      + (txFifoWe i && i.txLastP1).toNat := by
    rw [blocks, stored_step, List.countP_append, blocks_written]
  change s.nextFrameCount gen i = _
  rw [next, nextFrameCount]
  cases reads : s.txFifoRd gen i.dreq with
  | false =>
      simp only [Bool.false_and, Bool.not_false, Bool.and_true, Bool.and_false, Bool.false_eq_true, if_false]
      rw [count, blocks]
      cases txFifoWe i && i.txLastP1 with
      | false => rfl
      | true => rw [if_pos rfl, Bool.toNat_true, BitVec.ofNat_add]
  | true =>
      have whole := blocks_read reads
      rw [count, whole]
      cases s.txFifoLast <;> cases txFifoWe i && i.txLastP1 <;> simp [BitVec.ofNat_add]

def plain : TxGenerics := ⟨128, 1024, false⟩

end WrCores.Streamers.Tx
