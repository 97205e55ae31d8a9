import WrCores.Clocked.Ring
import WrCores.Clocked.Run

/-!
inferred_sync_fifo.vhd for `2 ^ w` cells, in its three builds: with the first word shown ahead, and without, the flags
made from the pointers or kept in registers. What the memory shows when it reads the cell that it writes is not known
(`g_addr_conflict_resolution` is "dont_care"); it comes with the edge. `f_log2_size` is at least one.
-/

namespace WrCores.Genrams

open Clocked

/-- `g_show_ahead` and `g_register_flag_outputs`. -/
inductive Build
  | showAhead
  | combFlags
  | registeredFlags
  deriving DecidableEq, Repr

structure SyncFifo (w : Nat) (α : Type*) where
  ram : BitVec w → α
  qComb : α
  rdPtr : BitVec w
  wrPtr : BitVec w
  usedw : BitVec (w + 1)
  guardBit : Bool
  /-- The flag registers, where the build has them. -/
  empty : Bool
  full : Bool
  almostFullO : Bool
  almostEmptyO : Bool

/-- The ports at an edge, and what a conflict would show. -/
structure SyncEdge (α : Type*) where
  d : α
  we : Bool
  rd : Bool
  conflict : α

/-- Where the almost-full and the almost-empty flag change. -/
structure Thresholds where
  almostFull : Nat
  almostEmpty : Nat

namespace SyncFifo

variable {w : Nat} {α : Type*}

def reset (ram : BitVec w → α) (q : α) : SyncFifo w α where
  ram := ram
  qComb := q
  rdPtr := 0
  wrPtr := 0
  usedw := 0
  guardBit := false
  empty := true
  full := false
  almostFullO := false
  almostEmptyO := true

section Source

variable (build : Build) (g : Thresholds) (s : SyncFifo w α) (e : SyncEdge α)

def emptyO : Bool :=
  match build with
  | .showAhead | .registeredFlags => s.empty
  | .combFlags => s.wrPtr == s.rdPtr && !s.guardBit

def fullO : Bool :=
  match build with
  | .showAhead => s.wrPtr + 1 == s.rdPtr
  | .combFlags => s.wrPtr == s.rdPtr && s.guardBit
  | .registeredFlags => s.full

def weInt : Bool := e.we && !s.fullO build

def rdInt : Bool := e.rd && !s.emptyO build

def rdPtrMuxed : BitVec w :=
  if s.rdInt build e && build == .showAhead then s.rdPtr + 1
  else if (s.rdInt build e && build != .showAhead) || build == .showAhead then s.rdPtr
  else s.rdPtr - 1

def emptyNext : Bool :=
  match build with
  | .showAhead => (s.rdPtr + 1 == s.wrPtr && s.rdInt build e) || s.rdPtr == s.wrPtr
  | .combFlags => s.empty
  | .registeredFlags =>
      if s.usedw == 1 && s.rdInt build e && !s.weInt build e then true
      else if s.weInt build e && !s.rdInt build e then false
      else s.empty

def fullNext : Bool :=
  if s.usedw.toNat == 2 ^ w - 2 && s.weInt build e && !s.rdInt build e then true
  else if s.usedw.toNat == 2 ^ w - 1 && s.rdInt build e && !s.weInt build e then false
  else s.full

def usedwNext : BitVec (w + 1) :=
  if s.weInt build e && !s.rdInt build e then s.usedw + 1
  else if !s.weInt build e && s.rdInt build e then s.usedw - 1
  else s.usedw

def guardNext : Bool :=
  if s.wrPtr + 1 == s.rdPtr && s.weInt build e then true
  else if e.rd then false
  else s.guardBit

def almostFullNext : Bool :=
  if s.usedw.toNat + 1 == g.almostFull && s.weInt build e && !s.rdInt build e then true
  else if s.usedw.toNat == g.almostFull && s.rdInt build e && !s.weInt build e then false
  else s.almostFullO

def almostEmptyNext : Bool :=
  if s.usedw.toNat == g.almostEmpty + 1 && s.rdInt build e && !s.weInt build e then true
  else if s.usedw.toNat == g.almostEmpty && s.weInt build e && !s.rdInt build e then false
  else s.almostEmptyO

def step : SyncFifo w α where
  ram := if s.weInt build e then Function.update s.ram s.wrPtr e.d else s.ram
  qComb := if s.weInt build e && s.rdPtrMuxed build e == s.wrPtr then e.conflict else s.ram (s.rdPtrMuxed build e)
  rdPtr := if s.rdInt build e then s.rdPtr + 1 else s.rdPtr
  wrPtr := if s.weInt build e then s.wrPtr + 1 else s.wrPtr
  usedw := s.usedwNext build e
  guardBit := s.guardNext build e
  empty := s.emptyNext build e
  full := s.fullNext build e
  almostFullO := s.almostFullNext build g e
  almostEmptyO := s.almostEmptyNext build g e

/-! ### What goes in and comes out -/

def stored : List α := slice s.ram s.rdPtr s.usedw.toNat

def written : List α := if s.weInt build e then [e.d] else []

/-- The word that is read: shown ahead of the edge, or behind it. -/
def taken : List α :=
  if s.rdInt build e then
    match build with
    | .showAhead => [s.qComb]
    | .combFlags | .registeredFlags => [(s.step build g e).qComb]
  else []

/-- Two of the builds leave a cell unused. -/
def capacity (w : Nat) : Build → Nat
  | .showAhead | .registeredFlags => 2 ^ w - 1
  | .combFlags => 2 ^ w

end Source

/-! ### The flags -/

variable {build : Build} {g : Thresholds} {s : SyncFifo w α} {e : SyncEdge α}

structure Inv (build : Build) (s : SyncFifo w α) : Prop where
  span : s.wrPtr = s.rdPtr + BitVec.ofNat w s.usedw.toNat
  room : s.usedw.toNat ≤ capacity w build
  full : s.fullO build = true ↔ s.usedw.toNat = capacity w build
  some' : s.emptyO build = false → 0 < s.usedw.toNat
  none : build ≠ .showAhead → s.emptyO build = true → s.usedw.toNat = 0
  guard : build = .combFlags → (s.usedw.toNat = 2 ^ w → s.guardBit = true) ∧ (s.usedw.toNat = 0 → s.guardBit = false)
  shown : build = .showAhead → s.empty = false → s.qComb = s.ram s.rdPtr

theorem capacity_le (w : Nat) (build : Build) : capacity w build ≤ 2 ^ w := by
  cases build <;> simp [capacity]

theorem one_toNat {n : Nat} (positive : 0 < n) : (1 : BitVec n).toNat = 1 := BitVec.toNat_one positive

/-- The pointers meet on an empty memory and on one whose every cell is used. -/
theorem span_zero (p : BitVec w) {n : Nat} (small : n ≤ 2 ^ w) : p + BitVec.ofNat w n = p ↔ n = 0 ∨ n = 2 ^ w := by
  constructor
  · intro same
    by_contra inside
    exact ring_apart p 0 n (by omega) (by omega) (by simpa using same.symm)
  · rintro (rfl | rfl)
    · simp
    · have none : BitVec.ofNat w (2 ^ w) = 0 := by
        apply BitVec.eq_of_toNat_eq
        rw [BitVec.toNat_ofNat, Nat.mod_self]
        rfl
      rw [none]
      exact BitVec.add_zero p

theorem span_next (p : BitVec w) {n : Nat} (small : n ≤ 2 ^ w) (positive : 0 < w) :
    p + BitVec.ofNat w n + 1 = p ↔ n + 1 = 2 ^ w := by
  have wide := Nat.one_lt_two_pow positive.ne'
  have next : p + BitVec.ofNat w n + 1 = p + BitVec.ofNat w (n + 1) := by
    rw [BitVec.ofNat_add, BitVec.add_assoc]
    rfl
  rcases Nat.lt_or_eq_of_le small with less | rfl
  · rw [next, span_zero p less]
    omega
  · rw [(span_zero p le_rfl).2 (.inr rfl)]
    constructor
    · intro same
      have one := (span_zero p (n := 1) (by omega)).1 (by simpa using same)
      omega
    · intro same
      omega

/-- The number of words behind an edge. -/
theorem Inv.usedw_next (inv : Inv build s) : (s.usedwNext build e).toNat =
    s.usedw.toNat + (s.weInt build e).toNat - (s.rdInt build e).toNat := by
  have limit := capacity_le w build
  have wide : 2 ^ (w + 1) = 2 ^ w + 2 ^ w := by rw [Nat.pow_succ, Nat.mul_two]
  have positive := Nat.two_pow_pos w
  have small := inv.room
  have full := inv.full
  have one := one_toNat (Nat.succ_pos w)
  rw [usedwNext]
  cases we : s.weInt build e <;> cases rd : s.rdInt build e <;> simp only [Bool.not_true, Bool.not_false,
    Bool.and_true, Bool.and_false, Bool.false_eq_true, if_false, if_true, Bool.toNat_true, Bool.toNat_false]
  · omega
  · have more : 0 < s.usedw.toNat := inv.some' (by simpa using (Bool.and_eq_true_iff.1 rd).2)
    rw [BitVec.toNat_sub_of_le (BitVec.le_def.2 (by rw [one]; omega)), one]
    omega
  · have open' : s.fullO build = false := by simpa using (Bool.and_eq_true_iff.1 we).2
    have less : s.usedw.toNat ≠ capacity w build := fun there => by simp [full.2 there] at open'
    rw [BitVec.toNat_add, one, Nat.mod_eq_of_lt (by omega)]
    omega
  · omega

theorem Inv.not_full (inv : Inv build s) (we : s.weInt build e = true) : s.usedw.toNat < capacity w build := by
  have open' : s.fullO build = false := by simpa using (Bool.and_eq_true_iff.1 we).2
  have other : s.usedw.toNat ≠ capacity w build := fun there => by simp [inv.full.2 there] at open'
  have small := inv.room
  omega

theorem open_of_reads (rd : s.rdInt build e = true) : s.emptyO build = false := by
  simpa using (Bool.and_eq_true_iff.1 rd).2

theorem Inv.not_empty (inv : Inv build s) (rd : s.rdInt build e = true) : 0 < s.usedw.toNat :=
  inv.some' (open_of_reads rd)

theorem ofNat_succ (n : Nat) : BitVec.ofNat w n + 1 = BitVec.ofNat w (n + 1) := by
  rw [BitVec.ofNat_add]
  rfl

theorem Inv.span_next (inv : Inv build s) : (s.step build g e).wrPtr =
    (s.step build g e).rdPtr + BitVec.ofNat w (s.step build g e).usedw.toNat := by
  change (if s.weInt build e then s.wrPtr + 1 else s.wrPtr) =
    (if s.rdInt build e then s.rdPtr + 1 else s.rdPtr) + BitVec.ofNat w (s.usedwNext build e).toNat
  rw [inv.usedw_next, inv.span]
  cases we : s.weInt build e <;> cases rd : s.rdInt build e <;> simp only [Bool.false_eq_true, if_false, if_true,
    Bool.toNat_true, Bool.toNat_false, Nat.add_zero, Nat.sub_zero, Nat.add_sub_cancel]
  · obtain ⟨n, count⟩ := Nat.exists_eq_add_of_le' (inv.not_empty rd)
    rw [count, Nat.add_sub_cancel, ← ofNat_succ, BitVec.add_assoc, BitVec.add_comm 1]
  · rw [BitVec.add_assoc, ofNat_succ]
  · rw [BitVec.add_assoc, BitVec.add_assoc, BitVec.add_comm 1]

/-- The cell that is written is free, and is not the one that is read. -/
theorem Inv.apart (inv : Inv build s) (we : s.weInt build e = true) {n : Nat} (stored : n < s.usedw.toNat) :
    s.rdPtr + BitVec.ofNat w n ≠ s.wrPtr := by
  rw [inv.span]
  exact ring_apart s.rdPtr n s.usedw.toNat stored ((inv.not_full we).trans_le (capacity_le w build))

/-! ### The first word -/

theorem front_eq (some' : 0 < s.usedw.toNat) :
    s.stored = s.ram s.rdPtr :: slice s.ram (s.rdPtr + 1) (s.usedw.toNat - 1) := by
  obtain ⟨n, count⟩ := Nat.exists_eq_add_of_le' some'
  rw [stored, count, slice_succ, Nat.add_sub_cancel]
  rfl

/-- The front of the next queue is shown unless the edge writes it. -/
theorem reads_free (free : s.weInt build e = true → s.rdPtrMuxed build e ≠ s.wrPtr) :
    (s.step build g e).qComb = s.ram (s.rdPtrMuxed build e) := by
  change (if s.weInt build e && s.rdPtrMuxed build e == s.wrPtr then e.conflict else s.ram (s.rdPtrMuxed build e)) = _
  rw [if_neg]
  simpa using free

theorem muxed_ahead (ahead : build = .showAhead) :
    s.rdPtrMuxed build e = if s.rdInt build e then s.rdPtr + 1 else s.rdPtr := by
  subst ahead
  simp only [rdPtrMuxed, beq_self_eq_true, bne_self_eq_false, Bool.and_true, Bool.or_true, if_true]

theorem muxed_behind (behind : build ≠ .showAhead) :
    s.rdPtrMuxed build e = if s.rdInt build e then s.rdPtr else s.rdPtr - 1 := by
  have other : (build == .showAhead) = false := beq_eq_false_iff_ne.2 behind
  simp only [rdPtrMuxed, other, bne, Bool.not_false, Bool.and_true, Bool.and_false, Bool.or_false, Bool.false_eq_true,
    if_false]

/-- With the first word shown ahead the flag says at once that the last word is read. -/
theorem Inv.empty_ahead (inv : Inv .showAhead s) (positive : 0 < w) :
    s.emptyNext .showAhead e = true ↔ s.usedw.toNat = (s.rdInt .showAhead e).toNat := by
  have wide := Nat.one_lt_two_pow positive.ne'
  have small : s.usedw.toNat ≤ 2 ^ w - 1 := inv.room
  have met : s.rdPtr = s.wrPtr ↔ s.usedw.toNat = 0 := by
    rw [inv.span, eq_comm, span_zero s.rdPtr (by omega)]
    omega
  have last : s.rdPtr + 1 = s.wrPtr ↔ s.usedw.toNat = 1 := by
    have near : s.rdPtr + BitVec.ofNat w 1 = s.wrPtr ↔ s.usedw.toNat = 1 := by
      rw [inv.span]
      refine ⟨fun same => ?_, fun one => by rw [one]⟩
      by_contra other
      rcases Nat.lt_or_gt_of_ne other with less | more
      · exact ring_apart s.rdPtr s.usedw.toNat 1 less wide same.symm
      · exact ring_apart s.rdPtr 1 s.usedw.toNat more (by omega) same
    exact near
  rw [emptyNext, Bool.or_eq_true, Bool.and_eq_true, beq_iff_eq, beq_iff_eq, met, last]
  cases rd : s.rdInt .showAhead e with
  | false => simp
  | true =>
      have more := inv.not_empty rd
      rw [Bool.toNat_true]
      simp only [and_true]
      omega

/-- Without the first word ahead, an edge that does not read cannot empty a FIFO or find it full. -/
theorem Inv.guard_next (inv : Inv .combFlags s) (positive : 0 < w) :
    ((s.usedwNext .combFlags e).toNat = 2 ^ w → s.guardNext .combFlags e = true) ∧
      ((s.usedwNext .combFlags e).toNat = 0 → s.guardNext .combFlags e = false) := by
  have wide := Nat.one_lt_two_pow positive.ne'
  obtain ⟨whole, none⟩ := inv.guard rfl
  have small : s.usedw.toNat ≤ 2 ^ w := inv.room
  have met : s.wrPtr + 1 = s.rdPtr ↔ s.usedw.toNat + 1 = 2 ^ w := by
    rw [inv.span]
    exact SyncFifo.span_next s.rdPtr small positive
  have asked (quiet : s.rdInt .combFlags e = false) (more : 0 < s.usedw.toNat) : e.rd = false := by
    have open' : s.emptyO .combFlags = false := by
      by_contra empty
      have zero := inv.none nofun (by simpa using empty)
      omega
    simpa [rdInt, open'] using quiet
  rw [inv.usedw_next, guardNext]
  cases we : s.weInt .combFlags e with
  | true =>
      have less : s.usedw.toNat < 2 ^ w := inv.not_full we
      cases rd : s.rdInt .combFlags e with
      | true =>
          have more := inv.not_empty rd
          simp only [Bool.toNat_true]
          exact ⟨fun there => by omega, fun there => by omega⟩
      | false =>
          simp only [Bool.toNat_true, Bool.toNat_false, Nat.sub_zero, Bool.and_true, beq_iff_eq, met]
          exact ⟨fun there => by rw [if_pos there], fun there => by omega⟩
  | false =>
      simp only [Bool.toNat_false, Nat.add_zero, Bool.and_false, Bool.false_eq_true, if_false]
      cases rd : s.rdInt .combFlags e with
      | true =>
          have more := inv.not_empty rd
          have read : e.rd = true := (Bool.and_eq_true_iff.1 rd).1
          rw [if_pos read, Bool.toNat_true]
          exact ⟨fun there => by omega, fun _ => rfl⟩
      | false =>
          rw [Bool.toNat_false, Nat.sub_zero]
          refine ⟨fun there => ?_, fun there => ?_⟩
          · rw [asked rd (by omega), if_neg Bool.false_ne_true, whole there]
          · rw [none there, ite_self]

theorem usedw_eq_one : (s.usedw == 1) = decide (s.usedw.toNat = 1) := by
  rw [Bool.eq_iff_iff, beq_iff_eq, decide_eq_true_iff, ← BitVec.toNat_inj, one_toNat (Nat.succ_pos w)]

theorem Inv.flags_next (inv : Inv .registeredFlags s) (positive : 0 < w) :
    (s.fullNext .registeredFlags e = true ↔ (s.usedwNext .registeredFlags e).toNat = 2 ^ w - 1) ∧
      (s.emptyNext .registeredFlags e = true ↔ (s.usedwNext .registeredFlags e).toNat = 0) := by
  have wide := Nat.one_lt_two_pow positive.ne'
  have full : s.full = true ↔ s.usedw.toNat = 2 ^ w - 1 := inv.full
  have empty : s.empty = true ↔ s.usedw.toNat = 0 := by
    refine ⟨inv.none nofun, fun zero => ?_⟩
    by_contra more
    have some' := inv.some' (by simpa [emptyO] using more)
    omega
  have small : s.usedw.toNat ≤ 2 ^ w - 1 := inv.room
  rw [inv.usedw_next, fullNext, emptyNext, usedw_eq_one]
  cases we : s.weInt .registeredFlags e <;> cases rd : s.rdInt .registeredFlags e <;> simp only [Bool.toNat_true,
    Bool.toNat_false, Bool.not_true, Bool.not_false, Bool.and_true, Bool.and_false, Bool.false_eq_true, if_false,
    Nat.add_zero, Nat.sub_zero, Nat.add_sub_cancel, beq_iff_eq, decide_eq_true_eq]
  · exact ⟨full, empty⟩
  · have more := inv.not_empty rd
    constructor
    · split
      · simp only [Bool.false_eq_true, false_iff]; omega
      · rw [full]; omega
    · split
      · simp only [true_iff]; omega
      · rw [empty]; omega
  · have less : s.usedw.toNat < 2 ^ w - 1 := inv.not_full we
    constructor
    · split
      · simp only [true_iff]; omega
      · rw [full]; omega
    · simp
  · exact ⟨full, empty⟩

theorem reset_inv (build : Build) (positive : 0 < w) (ram : BitVec w → α) (q : α) :
    Inv build (reset ram q) := by
  have wide := Nat.one_lt_two_pow positive.ne'
  cases build <;> constructor <;> simp [reset, fullO, emptyO, capacity] <;> omega

theorem Inv.step (inv : Inv build s) (positive : 0 < w) (g : Thresholds) (e : SyncEdge α) :
    Inv build (s.step build g e) := by
  have wide := Nat.one_lt_two_pow positive.ne'
  have limit := capacity_le w build
  have span := inv.span_next (g := g) (e := e)
  have count : (s.step build g e).usedw.toNat =
    s.usedw.toNat + (s.weInt build e).toNat - (s.rdInt build e).toNat := inv.usedw_next
  have room : (s.step build g e).usedw.toNat ≤ capacity w build := by
    have small := inv.room
    cases we : s.weInt build e with
    | false => rw [count, we, Bool.toNat_false]; omega
    | true =>
        have less := inv.not_full we
        rw [count, we, Bool.toNat_true]
        omega
  have met := span_zero (s.step build g e).rdPtr (room.trans limit)
  rw [← span] at met
  cases build with
  | showAhead =>
      have next := SyncFifo.span_next (s.step .showAhead g e).rdPtr (room.trans limit) positive
      rw [← span] at next
      have empty := inv.empty_ahead (e := e) positive
      have more : (s.step .showAhead g e).empty = false → s.usedw.toNat ≠ (s.rdInt .showAhead e).toNat := by
        intro some' same
        have flag : (s.step .showAhead g e).empty = true := empty.2 same
        rw [some'] at flag
        cases flag
      have upper : (s.rdInt .showAhead e).toNat ≤ s.usedw.toNat := by
        cases rd : s.rdInt .showAhead e with
        | false => exact Nat.zero_le _
        | true => exact inv.not_empty rd
      refine ⟨span, room, ?_, fun some' => ?_, nofun, nofun, fun _ some' => ?_⟩
      · rw [fullO, beq_iff_eq, next, capacity]
        omega
      · have behind := more some'
        omega
      · have behind := more some'
        have muxed := muxed_ahead (s := s) (e := e) rfl
        have cell : (s.step .showAhead g e).rdPtr = s.rdPtr + BitVec.ofNat w (s.rdInt .showAhead e).toNat := by
          change (if s.rdInt .showAhead e then s.rdPtr + 1 else s.rdPtr) = _
          cases s.rdInt .showAhead e
          · simp
          · rfl
        have place : s.rdPtrMuxed .showAhead e = (s.step .showAhead g e).rdPtr := muxed
        have free (we : s.weInt .showAhead e = true) : (s.step .showAhead g e).rdPtr ≠ s.wrPtr := by
          rw [cell]
          exact inv.apart we (by omega)
        rw [reads_free fun we => place ▸ free we, place]
        change _ = (if s.weInt .showAhead e then Function.update s.ram s.wrPtr e.d else s.ram) _
        split
        · rw [Function.update_of_ne (free ‹_›)]
        · rfl
  | combFlags =>
      have guard := inv.guard_next (e := e) positive
      have whole : (s.step .combFlags g e).usedw.toNat = 2 ^ w → (s.step .combFlags g e).guardBit = true := guard.1
      have none : (s.step .combFlags g e).usedw.toNat = 0 → (s.step .combFlags g e).guardBit = false := guard.2
      refine ⟨span, room, ?_, fun some' => ?_, fun _ empty => ?_, fun _ => guard, nofun⟩
      · rw [fullO, Bool.and_eq_true, beq_iff_eq, met, capacity]
        constructor
        · rintro ⟨zero | full, high⟩
          · rw [none zero] at high
            cases high
          · exact full
        · exact fun full => ⟨.inr full, whole full⟩
      · by_contra zero
        have no : (s.step .combFlags g e).usedw.toNat = 0 := by omega
        rw [emptyO, none no, beq_iff_eq.2 (met.2 (.inl no))] at some'
        cases some'
      · rw [emptyO, Bool.and_eq_true, beq_iff_eq, met] at empty
        obtain ⟨zero | full, low⟩ := empty
        · exact zero
        · rw [whole full] at low
          cases low
  | registeredFlags =>
      obtain ⟨full, empty⟩ := inv.flags_next (e := e) positive
      refine ⟨span, room, full, fun some' => ?_, fun _ => empty.1, nofun, nofun⟩
      by_contra zero
      have flag : (s.step .registeredFlags g e).empty = true := empty.2 (show (s.step _ g e).usedw.toNat = 0 by omega)
      rw [show (s.step .registeredFlags g e).empty = false from some'] at flag
      cases flag

/-! ### The words -/

theorem push_eq (inv : Inv build s) (e : SyncEdge α) : s.stored ++ s.written build e =
    slice (s.step build g e).ram s.rdPtr (s.usedw.toNat + (s.weInt build e).toNat) := by
  change _ = slice (if s.weInt build e then Function.update s.ram s.wrPtr e.d else s.ram) _ _
  rw [stored, written]
  cases we : s.weInt build e with
  | false => simp
  | true =>
      rw [if_pos rfl, if_pos rfl, Bool.toNat_true, slice_append, slice_succ, slice_zero, ← inv.span,
        Function.update_self, slice_write]
      exact fun n stored => inv.apart we stored

/-- What an edge writes goes in at the end, and what it reads comes out in front. -/
theorem Inv.balanced (inv : Inv build s) (g : Thresholds) (e : SyncEdge α) :
    s.stored ++ s.written build e = s.taken build g e ++ (s.step build g e).stored := by
  have count : (s.step build g e).usedw.toNat =
    s.usedw.toNat + (s.weInt build e).toNat - (s.rdInt build e).toNat := inv.usedw_next
  have pointer : (s.step build g e).rdPtr = if s.rdInt build e then s.rdPtr + 1 else s.rdPtr := rfl
  rw [push_eq (g := g) inv, taken.eq_def, stored, count, pointer]
  cases rd : s.rdInt build e with
  | false => rfl
  | true =>
      have more := inv.not_empty rd
      have front : s.weInt build e = true → s.rdPtr ≠ s.wrPtr := fun we => by simpa using inv.apart we more
      obtain ⟨n, total⟩ := Nat.exists_eq_add_of_le' (show 1 ≤ s.usedw.toNat + (s.weInt build e).toNat by omega)
      have kept : (s.step build g e).ram s.rdPtr = s.ram s.rdPtr := by
        change (if s.weInt build e then Function.update s.ram s.wrPtr e.d else s.ram) _ = _
        split
        · rw [Function.update_of_ne (front ‹_›)]
        · rfl
      have behind (other : build ≠ .showAhead) : (s.step build g e).qComb = s.ram s.rdPtr := by
        have muxed : s.rdPtrMuxed build e = s.rdPtr := by rw [muxed_behind other, if_pos rd]
        rw [reads_free fun we => muxed ▸ front we, muxed]
      rw [total, slice_succ, Bool.toNat_true, Nat.add_sub_cancel, kept, if_pos rfl, if_pos rfl]
      cases build with
      | showAhead =>
          have open' : s.empty = false := open_of_reads rd
          rw [← inv.shown rfl open']
          rfl
      | combFlags | registeredFlags =>
          rw [← behind nofun]
          rfl

/-- The flags of the word counter. -/
structure Almost (g : Thresholds) (s : SyncFifo w α) : Prop where
  full : s.almostFullO = true ↔ g.almostFull ≤ s.usedw.toNat
  empty : s.almostEmptyO = true ↔ s.usedw.toNat ≤ g.almostEmpty

theorem Almost.step (almost : Almost g s) (inv : Inv build s) (e : SyncEdge α) : Almost g (s.step build g e) := by
  obtain ⟨full, empty⟩ := almost
  have count : (s.step build g e).usedw.toNat =
    s.usedw.toNat + (s.weInt build e).toNat - (s.rdInt build e).toNat := inv.usedw_next
  constructor <;> rw [count]
  · change s.almostFullNext build g e = true ↔ _
    rw [almostFullNext]
    cases we : s.weInt build e <;> cases rd : s.rdInt build e <;> simp only [Bool.toNat_true, Bool.toNat_false,
      Bool.not_true, Bool.not_false, Bool.and_true, Bool.and_false, Bool.false_eq_true, if_false, Nat.add_zero,
      Nat.sub_zero, Nat.add_sub_cancel, beq_iff_eq]
    · exact full
    · have more := inv.not_empty rd
      split
      · simp only [Bool.false_eq_true, false_iff]; omega
      · rw [full]; omega
    · split
      · simp only [true_iff]; omega
      · rw [full]; omega
    · exact full
  · change s.almostEmptyNext build g e = true ↔ _
    rw [almostEmptyNext]
    cases we : s.weInt build e <;> cases rd : s.rdInt build e <;> simp only [Bool.toNat_true, Bool.toNat_false,
      Bool.not_true, Bool.not_false, Bool.and_true, Bool.and_false, Bool.false_eq_true, if_false, Nat.add_zero,
      Nat.sub_zero, Nat.add_sub_cancel, beq_iff_eq]
    · exact empty
    · have more := inv.not_empty rd
      split
      · simp only [true_iff]; omega
      · rw [empty]; omega
    · split
      · simp only [Bool.false_eq_true, false_iff]; omega
      · rw [empty]; omega
    · exact empty

/-! ### Runs -/

section Runs

variable (build : Build) (g : Thresholds) (positive : 0 < w) (ram : BitVec w → α) (q : α)
include positive

theorem run_inv (edges : List (SyncEdge α)) : Inv build (run (step build g) (reset ram q) edges) := by
  have runs : Along (step build g) (fun _ _ => True) (reset ram q) edges := along_of_forall (fun _ _ => trivial) _ _
  exact runs.invariant (Inv build) (fun _ e inv _ => inv.step positive g e) (reset_inv build positive ram q)

/-- In every build the words come out once and in order, and the flags are those of a queue with the build's capacity.
The flag of a first word that is shown ahead comes an edge after the word. -/
theorem sync_words_in_order (edges : List (SyncEdge α)) :
    let s := run (step build g) (reset ram q) edges
    collect (step build g) (written build) (reset ram q) edges =
        collect (step build g) (taken build g) (reset ram q) edges ++ s.stored ∧
      s.stored.length ≤ capacity w build ∧ (s.fullO build = true ↔ s.stored.length = capacity w build) ∧
      (s.emptyO build = false → s.stored ≠ []) ∧
      (build = .showAhead → (s.emptyO build = false → s.stored.head? = some s.qComb) ∧
        ∀ e, s.written build e = [] →
          ((s.step build g e).emptyO build = true ↔ (s.step build g e).stored = [])) ∧
      (build ≠ .showAhead → (s.emptyO build = true ↔ s.stored = [])) := by
  intro s
  have inv : Inv build s := run_inv build g positive ram q edges
  have runs : Along (step build g) (fun _ _ => True) (reset ram q) edges := along_of_forall (fun _ _ => trivial) _ _
  have conserved := runs.conserves (Inv build) stored (written build) (taken build g)
    (fun _ e inv _ => inv.step positive g e) (fun _ e inv _ => inv.balanced g e) (reset_inv build positive ram q)
  have length : s.stored.length = s.usedw.toNat := slice_length _ _ _
  have more (open' : s.emptyO build = false) : s.stored ≠ [] := by
    intro none
    have some' := inv.some' open'
    rw [none, List.length_nil] at length
    omega
  have nothing : (reset ram q).stored = [] := rfl
  rw [nothing, List.nil_append] at conserved
  refine ⟨conserved, by rw [length]; exact inv.room, by rw [length]; exact inv.full, more,
    fun ahead => ⟨fun open' => ?_, fun e quiet => ?_⟩, fun other => ⟨fun empty => ?_, fun none => ?_⟩⟩
  · subst ahead
    rw [front_eq (inv.some' open'), List.head?_cons, inv.shown rfl open']
  · subst ahead
    have idle : s.weInt .showAhead e = false := by
      by_contra writes
      simp [written, Bool.eq_true_of_not_eq_false writes] at quiet
    have count : (s.step .showAhead g e).usedw.toNat =
      s.usedw.toNat + (s.weInt .showAhead e).toNat - (s.rdInt .showAhead e).toNat := inv.usedw_next
    have upper : (s.rdInt .showAhead e).toNat ≤ s.usedw.toNat := by
      cases rd : s.rdInt .showAhead e with
      | false => exact Nat.zero_le _
      | true => exact inv.not_empty rd
    rw [← List.length_eq_zero_iff, stored, slice_length, count, idle, Bool.toNat_false]
    refine (inv.empty_ahead positive).trans ?_
    omega
  · rw [← List.length_eq_zero_iff, length]
    exact inv.none other empty
  · by_contra open'
    exact more (by simpa using open') none

omit positive in
/-- The smallest memory holds one word, shown an edge after it was written. -/
theorem sync_words_in_order_one :
    let write : SyncEdge Nat := ⟨5, true, false, 9⟩
    let rest : SyncEdge Nat := ⟨0, false, false, 9⟩
    let s := run (step .showAhead ⟨1, 0⟩) (reset (w := 1) (fun _ => 0) 0) [write, rest]
    s.emptyO .showAhead = false ∧ s.stored.head? = some s.qComb := by
  intro write rest s
  have all := sync_words_in_order .showAhead ⟨1, 0⟩ (w := 1) (by decide) (fun _ => 0) 0 [write, rest]
  exact ⟨by decide, (all.2.2.2.2.1 rfl).1 (by decide)⟩

/-- The word counter and its two flags are exact; the port loses the bit of a memory whose every cell is used. -/
theorem sync_counters_exact (threshold : 0 < g.almostFull) (edges : List (SyncEdge α)) :
    let s := run (step build g) (reset ram q) edges
    s.usedw.toNat = s.stored.length ∧ (s.usedw.setWidth w).toNat = s.stored.length % 2 ^ w ∧
      (s.almostFullO = true ↔ g.almostFull ≤ s.stored.length) ∧
      (s.almostEmptyO = true ↔ s.stored.length ≤ g.almostEmpty) := by
  intro s
  have runs : Along (step build g) (fun _ _ => True) (reset ram q) edges := along_of_forall (fun _ _ => trivial) _ _
  have both : Inv build s ∧ Almost g s :=
    runs.invariant (fun s => Inv build s ∧ Almost g s)
      (fun _ e both _ => ⟨both.1.step positive g e, both.2.step both.1 e⟩)
      ⟨reset_inv build positive ram q, by constructor <;> simp [reset]; omega⟩
  have length : s.stored.length = s.usedw.toNat := slice_length _ _ _
  exact ⟨length.symm, by rw [BitVec.toNat_setWidth, length], by rw [length]; exact both.2.full,
    by rw [length]; exact both.2.empty⟩

omit positive in
theorem sync_counters_exact_one :
    let s := run (step .combFlags ⟨1, 0⟩) (reset (w := 1) (fun _ => 0) 0) [⟨5, true, false, 9⟩]
    s.almostFullO = true ∧ (s.almostFullO = true ↔ 1 ≤ s.stored.length) := by
  intro s
  have all := sync_counters_exact .combFlags ⟨1, 0⟩ (w := 1) (by decide) (fun _ => 0) 0 (by decide)
    [⟨5, true, false, 9⟩]
  exact ⟨by decide, all.2.2.1⟩

end Runs

/-! ### The output between two reads -/

/-- The output is the word behind the read pointer. -/
structure Held (s : SyncFifo w α) (word : α) : Prop where
  shown : s.qComb = word
  cell : s.ram (s.rdPtr - 1) = word

theorem ram_next {a : BitVec w} (other : s.weInt build e = true → a ≠ s.wrPtr) :
    (s.step build g e).ram a = s.ram a := by
  change (if s.weInt build e then Function.update s.ram s.wrPtr e.d else s.ram) a = _
  split
  · rw [Function.update_of_ne (other ‹_›)]
  · rfl

theorem Inv.held_read (inv : Inv .registeredFlags s) (rd : s.rdInt .registeredFlags e = true) :
    Held (s.step .registeredFlags g e) (s.ram s.rdPtr) := by
  have more := inv.not_empty rd
  have front (we : s.weInt .registeredFlags e = true) : s.rdPtr ≠ s.wrPtr := by simpa using inv.apart we more
  have muxed : s.rdPtrMuxed .registeredFlags e = s.rdPtr := by
    rw [muxed_behind (show Build.registeredFlags ≠ .showAhead from nofun), if_pos rd]
  refine ⟨by rw [reads_free fun we => muxed ▸ front we, muxed], ?_⟩
  have back : (s.step .registeredFlags g e).rdPtr - 1 = s.rdPtr := by
    change (if s.rdInt .registeredFlags e then s.rdPtr + 1 else s.rdPtr) - 1 = _
    rw [if_pos rd, BitVec.add_sub_cancel]
  rw [back, ram_next front]

/-- The cell that is left unused is the one behind the read pointer. -/
theorem Inv.held_step (inv : Inv .registeredFlags s) {word : α} (held : Held s word)
    (quiet : s.rdInt .registeredFlags e = false) : Held (s.step .registeredFlags g e) word := by
  have unused (we : s.weInt .registeredFlags e = true) : s.rdPtr - 1 ≠ s.wrPtr := by
    have less : s.usedw.toNat < 2 ^ w - 1 := inv.not_full we
    have other := ring_apart (s.rdPtr - 1) 0 (s.usedw.toNat + 1) (Nat.succ_pos _) (by omega)
    have behind : s.rdPtr - 1 + BitVec.ofNat w (s.usedw.toNat + 1) = s.wrPtr := by
      rw [inv.span, Nat.add_comm, BitVec.ofNat_add, ← BitVec.add_assoc]
      exact congrArg (· + _) (BitVec.sub_add_cancel s.rdPtr 1)
    rw [behind] at other
    simpa using other
  have muxed : s.rdPtrMuxed .registeredFlags e = s.rdPtr - 1 := by
    rw [muxed_behind (show Build.registeredFlags ≠ .showAhead from nofun), quiet, if_neg Bool.false_ne_true]
  have pointer : (s.step .registeredFlags g e).rdPtr = s.rdPtr := by
    change (if s.rdInt .registeredFlags e then s.rdPtr + 1 else s.rdPtr) = _
    rw [if_neg (by rw [quiet]; exact Bool.false_ne_true)]
  exact ⟨by rw [reads_free fun we => muxed ▸ unused we, muxed, held.cell],
    by rw [pointer, ram_next unused, held.cell]⟩

/-- With registered flags the output keeps the word that was read until the next read, whatever is written. -/
theorem read_word_held (g : Thresholds) (positive : 0 < w) (ram : BitVec w → α) (q : α)
    (before tail : List (SyncEdge α)) (e : SyncEdge α) :
    let next := step .registeredFlags g
    let s := run next (reset ram q) before
    s.rdInt .registeredFlags e = true → Along next (fun t i => t.rdInt .registeredFlags i = false) (next s e) tail →
      some (run next (next s e) tail).qComb = s.stored.head? := by
  intro next s rd quiet
  have inv : Inv .registeredFlags s := run_inv .registeredFlags g positive ram q before
  have kept := quiet.invariant (fun t => Inv .registeredFlags t ∧ Held t (s.ram s.rdPtr))
    (fun t i both none => ⟨both.1.step positive g i, both.1.held_step both.2 none⟩)
    ⟨inv.step positive g e, inv.held_read rd⟩
  rw [front_eq (inv.not_empty rd), List.head?_cons, kept.2.shown]

theorem read_word_held_two :
    let next := step .registeredFlags ⟨1, 0⟩ (w := 2) (α := Nat)
    let write (d : Nat) : SyncEdge Nat := ⟨d, true, false, 9⟩
    let s := run next (reset (fun _ => 0) 0) [write 5, write 6, write 7]
    some (run next (next s ⟨0, false, true, 9⟩) [write 8, write 4]).qComb = s.stored.head? :=
  read_word_held ⟨1, 0⟩ (by decide) (fun _ => 0) 0 [⟨5, true, false, 9⟩, ⟨6, true, false, 9⟩, ⟨7, true, false, 9⟩]
    [⟨8, true, false, 9⟩, ⟨4, true, false, 9⟩] ⟨0, false, true, 9⟩ (by decide) (by decide)

end SyncFifo

end WrCores.Genrams
