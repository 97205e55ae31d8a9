import Mathlib.Data.Nat.Basic

/-!
A queue between two clocks. The writer counts the words it has written and the reader those it has taken; each knows
the other's count from two registers in a row, the first of which may find a count before or after a change of the same
time. The counts are not bounded here. Nothing here names a particular circuit.
-/

namespace WrCores.Clocked

/-- The counts, and what the other side has of them: in its first register, and in the one it goes by. -/
structure Counts where
  written : Nat
  writtenNew : Nat
  writtenSeen : Nat
  taken : Nat
  takenNew : Nat
  takenSeen : Nat

/-- Which sides have an edge, and what they do there. -/
structure Turn where
  writer : Bool
  reader : Bool
  writes : Bool
  takes : Bool

namespace Counts

structure Moves (t : Turn) (c c' : Counts) : Prop where
  written : c'.written = c.written + (t.writer && t.writes).toNat
  taken : c'.taken = c.taken + (t.reader && t.takes).toNat
  takenNew : if t.writer then c.taken ≤ c'.takenNew ∧ c'.takenNew ≤ c'.taken else c'.takenNew = c.takenNew
  takenSeen : c'.takenSeen = if t.writer then c.takenNew else c.takenSeen
  writtenNew : if t.reader then c.written ≤ c'.writtenNew ∧ c'.writtenNew ≤ c'.written else c'.writtenNew = c.writtenNew
  writtenSeen : c'.writtenSeen = if t.reader then c.writtenNew else c.writtenSeen

/-- Each side knows a count that the other one has passed. -/
structure Ordered (size : Nat) (c : Counts) : Prop where
  takenSeen : c.takenSeen ≤ c.takenNew
  takenNew : c.takenNew ≤ c.taken
  taken : c.taken ≤ c.writtenSeen
  writtenSeen : c.writtenSeen ≤ c.writtenNew
  writtenNew : c.writtenNew ≤ c.written
  room : c.written ≤ c.takenSeen + size

def zero : Counts := ⟨0, 0, 0, 0, 0, 0⟩

variable {size : Nat} {t : Turn} {c c' : Counts}

theorem zero_ordered : zero.Ordered size := by constructor <;> simp [zero]

theorem Ordered.stored (ordered : c.Ordered size) : c.taken ≤ c.written ∧ c.written ≤ c.taken + size := by
  obtain ⟨seenTaken, newTaken, taken, seen, new, room⟩ := ordered
  omega

/-- A side that goes by what it knows of the other keeps the order. -/
theorem Ordered.moves (ordered : c.Ordered size) (moves : Moves t c c')
    (writes : t.writes = true → c.written < c.takenSeen + size) (takes : t.takes = true → c.taken < c.writtenSeen) :
    c'.Ordered size := by
  obtain ⟨seenTaken, newTaken, taken, seen, new, room⟩ := ordered
  obtain ⟨written', taken', takenNew', takenSeen', writtenNew', writtenSeen'⟩ := moves
  have upper : (t.writer && t.writes).toNat ≤ 1 := Bool.toNat_le _
  have upper' : (t.reader && t.takes).toNat ≤ 1 := Bool.toNat_le _
  have full : c'.written ≤ c.takenSeen + size := by
    cases wr : t.writes with
    | false => simp only [wr, Bool.and_false, Bool.toNat_false] at written'; omega
    | true => have := writes wr; omega
  have empty : c'.taken ≤ c.writtenSeen := by
    cases rd : t.takes with
    | false => simp only [rd, Bool.and_false, Bool.toNat_false] at taken'; omega
    | true => have := takes rd; omega
  cases writer : t.writer <;> cases reader : t.reader <;>
    simp only [writer, reader, if_true, if_false, Bool.false_eq_true]
      at takenNew' takenSeen' writtenNew' writtenSeen' <;>
    constructor <;> omega

/-! ### What a side knows when the other rests -/

/-- What the reader knows `n` of its edges after the last write. -/
structure ReaderKnows (n : Nat) (c : Counts) : Prop where
  new : 1 ≤ n → c.writtenNew = c.written
  seen : 2 ≤ n → c.writtenSeen = c.written

structure WriterKnows (n : Nat) (c : Counts) : Prop where
  new : 1 ≤ n → c.takenNew = c.taken
  seen : 2 ≤ n → c.takenSeen = c.taken

theorem ReaderKnows.moves {n : Nat} (knows : c.ReaderKnows n) (moves : Moves t c c')
    (rests : (t.writer && t.writes) = false) : c'.ReaderKnows (n + t.reader.toNat) := by
  obtain ⟨new, seen⟩ := knows
  have same := moves.written
  have first := moves.writtenNew
  have second := moves.writtenSeen
  rw [rests, Bool.toNat_false, Nat.add_zero] at same
  cases reader : t.reader <;> simp only [reader, if_true, if_false, Bool.false_eq_true] at first second <;>
    refine ⟨fun late => ?_, fun late => ?_⟩ <;> simp only [Bool.toNat_false, Bool.toNat_true] at late
  · rw [first, same, new late]
  · rw [second, same, seen late]
  · omega
  · rw [second, same, new (by omega)]

theorem WriterKnows.moves {n : Nat} (knows : c.WriterKnows n) (moves : Moves t c c')
    (rests : (t.reader && t.takes) = false) : c'.WriterKnows (n + t.writer.toNat) := by
  obtain ⟨new, seen⟩ := knows
  have same := moves.taken
  have first := moves.takenNew
  have second := moves.takenSeen
  rw [rests, Bool.toNat_false, Nat.add_zero] at same
  cases writer : t.writer <;> simp only [writer, if_true, if_false, Bool.false_eq_true] at first second <;>
    refine ⟨fun late => ?_, fun late => ?_⟩ <;> simp only [Bool.toNat_false, Bool.toNat_true] at late
  · rw [first, same, new late]
  · rw [second, same, seen late]
  · omega
  · rw [second, same, new (by omega)]

end Counts

end WrCores.Clocked
