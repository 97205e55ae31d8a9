import Mathlib.Data.BitVec
import Mathlib.Data.FinEnum
import WrCores.Clocked.Run
import WrCores.Heap.Stack

/-!
eca_free.vhd: the stack of the free slots. It lies in an eca_sdp memory with one clock and the bypass, which
is read and written at the address that `r_used` is going to have. After the reset the memory is wiped: all
the slots go on the stack, one in a cycle, while the outputs say that it is full.
-/

namespace WrCores.Eca

open Clocked Heap

/-- `f_eca_and`: of no bits it is '0'. -/
def fEcaAnd {n : Nat} (x : BitVec n) : Bool := decide (0 < n) && decide (x = BitVec.allOnes n)

/-- `f_eca_eq`: two addresses of no bits are not equal. -/
def fEcaEq {n : Nat} (x y : BitVec n) : Bool := fEcaAnd (~~~(x ^^^ y))

theorem fEcaEq_eq {n : Nat} (x y : BitVec n) : fEcaEq x y = (decide (0 < n) && decide (x = y)) := by
  have ones : ~~~(x ^^^ y) = BitVec.allOnes n ↔ x = y := by
    rw [← BitVec.not_zero, BitVec.not_inj, BitVec.xor_eq_zero_iff]
  rw [fEcaEq, fEcaAnd, decide_eq_decide.mpr ones]

/-- `f_eca_or`: of no bits it is '1'. -/
def fEcaOr {n : Nat} (x : BitVec n) : Bool := decide (n = 0) || decide (x ≠ 0)

theorem fEcaOr_eq {n : Nat} (bits : 0 < n) (x : BitVec n) : fEcaOr x = decide (x ≠ 0) := by
  rw [fEcaOr, decide_eq_false (by omega : ¬n = 0), Bool.false_or]

/-- The registers of eca_sdp with `g_bypass`; `w_data` is the one of the bypass. -/
structure Sdp (addrBits dataBits : Nat) where
  memory : BitVec addrBits → BitVec dataBits
  data : BitVec dataBits
  bypass : Bool
  wData : BitVec dataBits

namespace Sdp

variable {addrBits dataBits : Nat}

def rData (s : Sdp addrBits dataBits) : BitVec dataBits := if s.bypass then s.wData else s.data

/-- An address of no bits is not safe for the source, which reads 'X'; here the one cell is read. -/
def step (s : Sdp addrBits dataBits) (rAddr : BitVec addrBits) (wEn : Bool) (wAddr : BitVec addrBits)
    (wData : BitVec dataBits) : Sdp addrBits dataBits where
  memory := if wEn then Function.update s.memory wAddr wData else s.memory
  data := s.memory rAddr
  bypass := wEn && fEcaEq rAddr wAddr
  wData := wData

/-- The port shows the cell of the last edge as it is after that edge. -/
theorem rData_step (bits : 0 < addrBits) (s : Sdp addrBits dataBits) (rAddr : BitVec addrBits) (wEn : Bool)
    (wAddr : BitVec addrBits)
    (wData : BitVec dataBits) :
    (s.step rAddr wEn wAddr wData).rData = (s.step rAddr wEn wAddr wData).memory rAddr := by
  cases wEn with
  | false => rfl
  | true =>
      by_cases same : rAddr = wAddr
      · simp [rData, step, fEcaEq_eq, bits, same]
      · simp [rData, step, fEcaEq_eq, same]

end Sdp

structure FreeIn (logSize : Nat) where
  alloc : Bool
  free : Bool
  entry : BitVec logSize
  deriving DecidableEq, Repr

structure Free (logSize : Nat) where
  stack : Sdp logSize logSize
  used : BitVec (logSize + 1)
  reset : BitVec (logSize + 1)
  ready : Bool

namespace Free

variable {n : Nat}

/-- The memory and its registers have no reset. -/
structure AfterReset (s : Free n) : Prop where
  used : s.used = BitVec.twoPow (n + 1) n
  reset : s.reset = 0
  ready : s.ready = false

/-- `r_reset'high`. -/
def wiped (s : Free n) : Bool := s.reset.msb

def full (s : Free n) : Bool := s.used.msb || !s.ready

def allocates (s : Free n) (i : FreeIn n) : Bool := i.alloc && !s.full

def frees (s : Free n) (i : FreeIn n) : Bool := i.free || !s.wiped

def wEn (s : Free n) (i : FreeIn n) : Bool := !s.allocates i && s.frees i

def freed (s : Free n) (i : FreeIn n) : BitVec n := if s.wiped then i.entry else s.reset.setWidth n

/-- `entry_o`. -/
def avail (s : Free n) (i : FreeIn n) : BitVec n := if i.free then i.entry else s.stack.rData

def nextUsed (s : Free n) (i : FreeIn n) : BitVec (n + 1) :=
  match s.frees i, s.allocates i with
  | false, false => s.used
  | false, true => s.used + 1
  | true, false => s.used - 1
  | true, true => s.used

def step (s : Free n) (i : FreeIn n) : Free n where
  stack := s.stack.step ((s.nextUsed i).setWidth n) (s.wEn i) ((s.nextUsed i).setWidth n) (s.freed i)
  used := s.nextUsed i
  reset := if s.wiped then s.reset else s.reset + 1
  ready := s.wiped

/-- The slots on the stack, the top one first. -/
def slots (s : Free n) : List (BitVec n) :=
  above (fun a => s.stack.memory (BitVec.ofNat n a)) (2 ^ n) s.used.toNat

theorem msb_iff (x : BitVec (n + 1)) (bound : x.toNat ≤ 2 ^ n) : x.msb = true ↔ x.toNat = 2 ^ n := by
  rw [BitVec.msb_eq_decide, decide_eq_true_iff, Nat.add_sub_cancel]
  omega

theorem one_toNat : BitVec.toNat (1 : BitVec (n + 1)) = 1 := BitVec.toNat_one (by omega)

theorem allocates_room {s : Free n} {i : FreeIn n} (bound : s.used.toNat ≤ 2 ^ n)
    (takes : s.allocates i = true) : s.used.toNat < 2 ^ n := by
  rw [allocates, Bool.and_eq_true, Bool.not_eq_true', full, Bool.or_eq_false_iff] at takes
  have low : ¬s.used.toNat = 2 ^ n := by
    rw [← msb_iff _ bound, takes.2.1]
    exact Bool.false_ne_true
  omega

theorem stack_step (s : Free n) (i : FreeIn n) :
    (s.step i).stack.memory =
      if s.wEn i then Function.update s.stack.memory (BitVec.ofNat n (s.step i).used.toNat) (s.freed i)
      else s.stack.memory := by
  rw [BitVec.ofNat_toNat]
  rfl

/-- The port shows the top of the stack. -/
theorem top_step (bits : 0 < n) (s : Free n) (i : FreeIn n) :
    (s.step i).stack.rData = (s.step i).stack.memory (BitVec.ofNat n (s.step i).used.toNat) := by
  rw [BitVec.ofNat_toNat]
  exact Sdp.rData_step bits _ _ _ _ _

theorem slots_keep {s : Free n} {i : FreeIn n} (same : s.frees i = s.allocates i) :
    (s.step i).slots = s.slots ∧ (s.step i).used = s.used := by
  have used : (s.step i).used = s.used := by
    simp only [step, nextUsed, same]
    cases s.allocates i <;> rfl
  have still : s.wEn i = false := by
    rw [wEn, same]
    cases s.allocates i <;> rfl
  refine ⟨?_, used⟩
  rw [slots, slots, used, stack_step, still]
  rfl

theorem slots_pop {s : Free n} {i : FreeIn n} (takes : s.allocates i = true) (quiet : s.frees i = false)
    (room : s.used.toNat < 2 ^ n) :
    s.slots = s.stack.memory (BitVec.ofNat n s.used.toNat) :: (s.step i).slots ∧
      (s.step i).used.toNat = s.used.toNat + 1 := by
  have used : (s.step i).used.toNat = s.used.toNat + 1 := by
    have small : s.used.toNat + 1 < 2 ^ (n + 1) := by
      rw [Nat.pow_succ]
      omega
    simp only [step, nextUsed, takes, quiet]
    rw [BitVec.toNat_add, one_toNat]
    exact Nat.mod_eq_of_lt small
  have still : s.wEn i = false := by
    rw [wEn, takes]
    rfl
  refine ⟨?_, used⟩
  rw [slots, slots, used, stack_step, still]
  exact above_pop _ room

theorem slots_push {s : Free n} {i : FreeIn n} (quiet : s.allocates i = false) (gives : s.frees i = true)
    (filled : 0 < s.used.toNat) (bound : s.used.toNat ≤ 2 ^ n) :
    (s.step i).slots = s.freed i :: s.slots ∧ (s.step i).used.toNat = s.used.toNat - 1 := by
  have used : (s.step i).used.toNat = s.used.toNat - 1 := by
    simp only [step, nextUsed, gives, quiet]
    rw [BitVec.toNat_sub_of_le]
    · rw [one_toNat]
    · rw [BitVec.le_def, one_toNat]
      exact filled
  have writes : s.wEn i = true := by
    rw [wEn, quiet, gives]
    rfl
  refine ⟨?_, used⟩
  have cell : (s.step i).stack.memory (BitVec.ofNat n (s.step i).used.toNat) = s.freed i := by
    rw [stack_step, if_pos writes, Function.update_self]
  have others : ∀ a, (s.step i).used.toNat < a → a < 2 ^ n →
      (s.step i).stack.memory (BitVec.ofNat n a) = s.stack.memory (BitVec.ofNat n a) := by
    intro a behind inside
    have apart : BitVec.ofNat n a ≠ BitVec.ofNat n (s.step i).used.toNat := by
      intro same
      have values := congrArg BitVec.toNat same
      rw [BitVec.toNat_ofNat, BitVec.toNat_ofNat, Nat.mod_eq_of_lt inside, Nat.mod_eq_of_lt (by omega)] at values
      omega
    rw [stack_step, if_pos writes, Function.update_of_ne apart]
  rw [slots, above_push (by omega) others, cell, slots]
  congr 2
  omega

/-- The table is being wiped: the slots below `r_reset` are on the stack. -/
structure Wiping (s : Free n) : Prop where
  early : s.reset.toNat < 2 ^ n
  used : s.used.toNat = 2 ^ n - s.reset.toNat
  ready : s.ready = false
  slots : s.slots = (List.range s.reset.toNat).reverse.map (BitVec.ofNat n)

/-- The stack and the slots that somebody holds share the slots. -/
structure Shared (s : Free n) (held : List (BitVec n)) : Prop where
  reset : s.reset.toNat = 2 ^ n
  used : s.used.toNat = held.length
  once : (s.slots ++ held).Nodup
  top : s.stack.rData = s.stack.memory (BitVec.ofNat n s.used.toNat)

theorem Wiping.notWiped {s : Free n} (wiping : s.Wiping) : s.wiped = false := by
  have early := wiping.early
  have other : ¬s.reset.msb = true := by
    rw [msb_iff _ (by omega)]
    omega
  exact Bool.eq_false_of_not_eq_true other

theorem Shared.isWiped {s : Free n} {held : List (BitVec n)} (shared : s.Shared held) : s.wiped = true :=
  (msb_iff _ shared.reset.le).mpr shared.reset

theorem wiping_reset {s : Free n} (start : s.AfterReset) : s.Wiping := by
  have used : s.used.toNat = 2 ^ n := by
    rw [start.used, BitVec.toNat_twoPow_of_lt (by omega)]
  have zero : s.reset.toNat = 0 := by
    rw [start.reset]
    rfl
  refine ⟨?_, ?_, start.ready, ?_⟩
  · rw [zero]
    exact Nat.two_pow_pos n
  · rw [used, zero, Nat.sub_zero]
  · rw [slots, used, above_empty, zero]
    rfl

/-- While the table is wiped nothing is taken, and a cycle puts one slot on the stack. -/
theorem Wiping.step (bits : 0 < n) {s : Free n} (wiping : s.Wiping) (i : FreeIn n) :
    (s.step i).reset.toNat = s.reset.toNat + 1 ∧
      ((s.step i).Wiping ∨ (s.step i).Shared []) := by
  have early := wiping.early
  have busy : s.wiped = false := wiping.notWiped
  have takes : s.allocates i = false := by
    rw [allocates, full, wiping.ready]
    simp
  have gives : s.frees i = true := by
    rw [frees, busy]
    simp
  have reset : (s.step i).reset.toNat = s.reset.toNat + 1 := by
    have small : s.reset.toNat + 1 < 2 ^ (n + 1) := by
      rw [Nat.pow_succ]
      omega
    simp only [Free.step, busy]
    rw [if_neg Bool.false_ne_true, BitVec.toNat_add, one_toNat]
    exact Nat.mod_eq_of_lt small
  have amount := wiping.used
  obtain ⟨pushed, used⟩ := slots_push takes gives (by omega) (by omega)
  have slot : s.freed i = BitVec.ofNat n s.reset.toNat := by
    rw [freed, busy, BitVec.ofNat_toNat]
    rfl
  have content : (s.step i).slots = (List.range (s.step i).reset.toNat).reverse.map (BitVec.ofNat n) := by
    rw [pushed, slot, wiping.slots, reset, List.range_succ, List.reverse_append]
    rfl
  refine ⟨reset, ?_⟩
  by_cases last : s.reset.toNat + 1 = 2 ^ n
  · right
    refine ⟨by omega, ?_, ?_, top_step bits s i⟩
    · rw [used, List.length_nil]
      omega
    · rw [List.append_nil, content, List.map_reverse, List.nodup_reverse]
      apply List.Nodup.map_on _ List.nodup_range
      intro a low b low' same
      rw [List.mem_range] at low low'
      have values := congrArg BitVec.toNat same
      rwa [BitVec.toNat_ofNat, BitVec.toNat_ofNat, Nat.mod_eq_of_lt (by omega), Nat.mod_eq_of_lt (by omega)]
        at values
  · left
    refine ⟨by omega, by omega, ?_, content⟩
    simp only [Free.step, busy]

/-- Who holds what behind an edge: a slot is given back before the next one is given. -/
def heldNext (s : Free n) (held : List (BitVec n)) (i : FreeIn n) : List (BitVec n) :=
  let left := if i.free then held.erase i.entry else held
  if s.allocates i then s.avail i :: left else left

theorem card_slots : Fintype.card (BitVec n) = 2 ^ n := by
  rw [← FinEnum.card_eq_fintypeCard, FinEnum.card_bitVec]

theorem Shared.bound {s : Free n} {held : List (BitVec n)} (shared : s.Shared held) : s.used.toNat ≤ 2 ^ n := by
  have limit := (List.nodup_append.mp shared.once).2.1.length_le_card
  rwa [← shared.used, card_slots] at limit

theorem Shared.mem_slots {s : Free n} {held : List (BitVec n)} (shared : s.Shared held) (slot : BitVec n) :
    slot ∈ s.slots ↔ slot ∉ held := by
  apply mem_iff_of_full shared.once
  have bound := shared.bound
  rw [slots, length_above, ← shared.used, card_slots]
  omega

/-- A slot is given from the stack or from the hand that gives it back, and one that is given back goes on
the stack or to the next one. -/
theorem Shared.step (bits : 0 < n) {s : Free n} {held : List (BitVec n)} (shared : s.Shared held) {i : FreeIn n}
    (owned : i.free = true → i.entry ∈ held) :
    (s.step i).Shared (s.heldNext held i) ∧
      (s.allocates i = true → s.avail i ∉ if i.free then held.erase i.entry else held) := by
  have once := shared.once
  have handsOnce := (List.nodup_append.mp once).2.1
  have wiped := shared.isWiped
  have gives : s.frees i = i.free := by
    rw [frees, wiped]
    simp
  have reset : (s.step i).reset.toNat = 2 ^ n := by
    simp only [Free.step, wiped]
    exact shared.reset
  cases takes : s.allocates i with
  | false =>
      refine ⟨?_, fun h => absurd h Bool.false_ne_true⟩
      cases back : i.free with
      | false =>
          obtain ⟨same, used⟩ := slots_keep (gives.trans (back.trans takes.symm))
          refine ⟨reset, ?_, ?_, top_step bits s i⟩
          · simp [heldNext, takes, back, used, shared.used]
          · simpa [heldNext, takes, back, same] using once
      | true =>
          have member := owned back
          have filled := List.length_pos_of_mem member
          obtain ⟨pushed, used⟩ := slots_push takes (gives.trans back)
            (by rw [shared.used]; exact filled) shared.bound
          have slot : s.freed i = i.entry := by
            rw [freed, if_pos wiped]
          refine ⟨reset, ?_, ?_, top_step bits s i⟩
          · simp [heldNext, takes, back, used, shared.used, List.length_erase_of_mem member]
          · have order : (i.entry :: (s.slots ++ held.erase i.entry)).Perm (s.slots ++ held) :=
              List.perm_middle.symm.trans ((List.perm_cons_erase member).symm.append_left s.slots)
            simpa [heldNext, takes, back, pushed, slot] using order.nodup_iff.mpr once
  | true =>
      have room := allocates_room shared.bound takes
      cases back : i.free with
      | false =>
          obtain ⟨popped, used⟩ := slots_pop takes (gives.trans back) room
          have given : s.avail i = s.stack.memory (BitVec.ofNat n s.used.toNat) := by
            rw [avail, back, ← shared.top]
            rfl
          have top : s.avail i ∈ s.slots := by
            rw [popped, given]
            exact List.mem_cons_self
          refine ⟨⟨reset, ?_, ?_, top_step bits s i⟩, fun _ => (shared.mem_slots _).mp top⟩
          · simp [heldNext, takes, back, used, shared.used]
          · have order : ((s.step i).slots ++ s.avail i :: held).Perm (s.slots ++ held) := by
              rw [popped, given]
              exact List.perm_middle
            simpa [heldNext, takes, back] using order.nodup_iff.mpr once
      | true =>
          have member := owned back
          have given : s.avail i = i.entry := by
            rw [avail, if_pos back]
          obtain ⟨same, used⟩ := slots_keep (gives.trans (back.trans takes.symm))
          have returned : i.entry ∉ held.erase i.entry := handsOnce.not_mem_erase
          refine ⟨⟨reset, ?_, ?_, top_step bits s i⟩, fun _ => by simpa [given] using returned⟩
          · have filled := List.length_pos_of_mem member
            simp [heldNext, takes, back, used, shared.used, List.length_erase_of_mem member]
            omega
          · have order : (s.slots ++ i.entry :: held.erase i.entry).Perm (s.slots ++ held) :=
              (List.perm_cons_erase member).symm.append_left s.slots
            simpa [heldNext, takes, back, same, given] using order.nodup_iff.mpr once

end Free

end WrCores.Eca
