import WrCores.Clocked.Pointers
import WrCores.Clocked.Run

/-!
eb_fifo.vhd for `2 ^ k` words, with the memory of generic_simple_dpram.vhd, which shows the old word where one is
written. It has no guards: it relies on those who use it to push only into a cell that is free, and to pop only a word
that it shows.
-/

namespace WrCores.Etherbone

open Clocked

structure EbFifo (k : Nat) (α : Type) where
  ram : BitVec k → α
  rIdx : BitVec (k + 1)
  wIdx : BitVec (k + 1)
  wFullO : Bool
  rEmptyO : Bool
  rDatO : α

namespace EbFifo

variable {k : Nat} {α : Type}

def reset (ram : BitVec k → α) : EbFifo k α where
  ram := ram
  rIdx := 0
  wIdx := 0
  wFullO := false
  rEmptyO := true
  rDatO := ram 0

variable (f : EbFifo k α) (push pop : Bool) (dat : α)

def rIdx1 : BitVec (k + 1) := if pop then f.rIdx + 1#(k + 1) else f.rIdx

def wIdx1 : BitVec (k + 1) := if push then f.wIdx + 1#(k + 1) else f.wIdx

def step : EbFifo k α where
  ram := if push then Function.update f.ram (f.wIdx.setWidth k) dat else f.ram
  rIdx := f.rIdx1 pop
  wIdx := f.wIdx1 push
  wFullO := f.wIdx1 push ^^^ BitVec.twoPow (k + 1) k == f.rIdx1 pop
  -- the old pointer, so that a word is not shown while it is written
  rEmptyO := f.wIdx == f.rIdx1 pop
  rDatO := f.ram ((f.rIdx1 pop).setWidth k)

/-- The words in the FIFO. -/
def stored : List α := slice f.ram (f.rIdx.setWidth k) (f.wIdx - f.rIdx).toNat

/-- The pointers are counts, and the flags say what they should. -/
structure Holds (written taken : Nat) : Prop where
  rIdx : f.rIdx = BitVec.ofNat (k + 1) taken
  wIdx : f.wIdx = BitVec.ofNat (k + 1) written
  less : taken ≤ written
  room : written ≤ taken + 2 ^ k
  full : f.wFullO = true ↔ written = taken + 2 ^ k
  shown : f.rEmptyO = false → taken < written ∧ f.rDatO = f.ram (BitVec.ofNat k taken)

variable {f push pop dat} {written taken : Nat}

theorem reset_holds (ram : BitVec k → α) : (reset ram).Holds 0 0 where
  rIdx := rfl
  wIdx := rfl
  less := le_rfl
  room := Nat.zero_le _
  full := by
    have positive := Nat.two_pow_pos k
    simp only [reset, Bool.false_eq_true, false_iff]
    omega
  shown := nofun

theorem Holds.stored_eq (holds : f.Holds written taken) :
    f.stored = slice f.ram (BitVec.ofNat k taken) (written - taken) := by
  have wide := twoPow_succ k
  have room := holds.room
  have positive := Nat.two_pow_pos k
  rw [stored, holds.rIdx, holds.wIdx, setWidth_ofNat, distance holds.less (by omega)]

theorem Holds.length (holds : f.Holds written taken) : f.stored.length = written - taken := by
  rw [holds.stored_eq, slice_length]

variable (pop dat) in
/-- A cell in use is not the one that is written. -/
theorem Holds.cell (holds : f.Holds written taken) (free : push = true → written < taken + 2 ^ k) {n : Nat}
    (inside : taken ≤ n) (before : n < written) :
    (f.step push pop dat).ram (BitVec.ofNat k n) = f.ram (BitVec.ofNat k n) := by
  cases push with
  | false => rfl
  | true =>
      have room := free rfl
      have apart : BitVec.ofNat k n ≠ BitVec.ofNat k written := by
        have other := ring_apart (BitVec.ofNat k n) 0 (written - n) (by omega) (by omega)
        rwa [← BitVec.ofNat_add, ← BitVec.ofNat_add, Nat.add_zero, Nat.add_sub_cancel' before.le] at other
      simp only [EbFifo.step, if_true, holds.wIdx, setWidth_ofNat]
      exact Function.update_of_ne apart _ _

variable (dat) in
theorem Holds.step (holds : f.Holds written taken) (free : push = true → written < taken + 2 ^ k)
    (some : pop = true → f.rEmptyO = false) :
    (f.step push pop dat).Holds (written + push.toNat) (taken + pop.toNat) := by
  have wide := twoPow_succ k
  have positive := Nat.two_pow_pos k
  have cell := fun n => holds.cell (n := n) pop dat free
  obtain ⟨rIdx, wIdx, less, room, full, shown⟩ := holds
  have popped : taken + pop.toNat ≤ written := by
    cases pop with
    | false => exact less
    | true => exact (shown (some rfl)).1
  have pushed : written + push.toNat ≤ taken + 2 ^ k := by
    cases push with
    | false => exact room
    | true => exact free rfl
  have reads : f.rIdx1 pop = BitVec.ofNat (k + 1) (taken + pop.toNat) := by
    cases pop <;> simp [rIdx1, rIdx, ofNat_next]
  have writes : f.wIdx1 push = BitVec.ofNat (k + 1) (written + push.toNat) := by
    cases push <;> simp [wIdx1, wIdx, ofNat_next]
  refine ⟨reads, writes, by omega, by omega, ?_, fun more => ?_⟩
  · have round : BitVec.ofNat (k + 1) (taken + pop.toNat) = BitVec.ofNat (k + 1) (taken + pop.toNat + 2 ^ (k + 1)) :=
      BitVec.eq_of_toNat_eq (by simp)
    rw [EbFifo.step, writes, reads, ofNat_half, beq_iff_eq, round, ofNat_close (by omega) (by omega)]
    omega
  · have behind : taken + pop.toNat < written := by
      refine Nat.lt_of_le_of_ne popped fun same => ?_
      rw [EbFifo.step, reads, wIdx, same, beq_self_eq_true] at more
      cases more
    refine ⟨by omega, ?_⟩
    rw [cell _ (Nat.le_add_right _ _) behind, EbFifo.step, reads, setWidth_ofNat]

/-- A push goes in at the end, a pop comes out in front. -/
theorem Holds.balanced (holds : f.Holds written taken) (free : push = true → written < taken + 2 ^ k)
    (some : pop = true → f.rEmptyO = false) :
    f.stored ++ (if push then [dat] else []) = (if pop then [f.rDatO] else []) ++ (f.step push pop dat).stored := by
  rw [holds.stored_eq, (holds.step dat free some).stored_eq]
  have pushed : slice f.ram (BitVec.ofNat k taken) (written - taken) ++ (if push then [dat] else []) =
      slice (f.step push pop dat).ram (BitVec.ofNat k taken) (written + push.toNat - taken) := by
    cases push with
    | false => simp [EbFifo.step]
    | true =>
        rw [if_pos rfl, EbFifo.step, if_pos rfl, holds.wIdx, setWidth_ofNat]
        exact (slice_push f.ram holds.less (free rfl) dat).symm
  rw [pushed]
  cases pop with
  | false => rfl
  | true =>
      obtain ⟨more, dat'⟩ := holds.shown (some rfl)
      rw [if_pos rfl, Bool.toNat_true, slice_pop _ (by omega), List.singleton_append, dat']
      rw [holds.cell _ _ free le_rfl more]

/-! ### What its users rely on -/

/-- It has never been overrun. -/
def Sound (f : EbFifo k α) : Prop := ∃ written taken, f.Holds written taken

theorem reset_sound (ram : BitVec k → α) : (reset ram).Sound ∧ (reset ram).stored = [] :=
  ⟨⟨0, 0, reset_holds ram⟩, List.length_eq_zero_iff.mp (reset_holds ram).length⟩

theorem Sound.few (sound : f.Sound) : f.stored.length ≤ 2 ^ k := by
  obtain ⟨written, taken, holds⟩ := sound
  rw [holds.length]
  exact Nat.sub_le_iff_le_add'.mpr holds.room

theorem Sound.room (sound : f.Sound) (free : f.wFullO = false) : f.stored.length < 2 ^ k := by
  obtain ⟨written, taken, holds⟩ := sound
  have less := holds.less
  have room := holds.room
  have positive := Nat.two_pow_pos k
  have other := mt holds.full.mpr (ne_true_of_eq_false free)
  rw [holds.length]
  omega

theorem Sound.shown (sound : f.Sound) (some : f.rEmptyO = false) : ∃ rest, f.stored = f.rDatO :: rest := by
  obtain ⟨written, taken, holds⟩ := sound
  obtain ⟨more, dat⟩ := holds.shown some
  exact ⟨_, by rw [holds.stored_eq, slice_pop _ more, dat]⟩

theorem Sound.step (sound : f.Sound) (free : push = true → f.stored.length < 2 ^ k)
    (some : pop = true → f.rEmptyO = false) (dat : α) :
    (f.step push pop dat).Sound ∧ (f.step push pop dat).stored.length ≤ f.stored.length + push.toNat ∧
      f.stored ++ (if push then [dat] else []) = (if pop then [f.rDatO] else []) ++ (f.step push pop dat).stored := by
  obtain ⟨written, taken, holds⟩ := sound
  have less := holds.less
  rw [holds.length] at free
  have free' : push = true → written < taken + 2 ^ k := fun pushes => by
    have := free pushes
    omega
  have next := holds.step dat free' some
  refine ⟨⟨_, _, next⟩, ?_, holds.balanced free' some⟩
  rw [next.length, holds.length]
  omega

end EbFifo

end WrCores.Etherbone
