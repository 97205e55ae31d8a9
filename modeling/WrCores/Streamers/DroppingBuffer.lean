import WrCores.Clocked.Run
import WrCores.Clocked.Ring

/-!
dropping_buffer.vhd. Words are written behind `boundary` and become readable when an
accept moves `boundary` up to `wr_ptr`; a drop moves `wr_ptr` back to `boundary`. The
pointers have `w` bits and the memory `2 ^ w` words, which is `g_size`. `Ledger` says
what the buffer is for: a list of committed words and a list of tentative ones.
-/

namespace WrCores.Streamers

open Clocked

structure DroppingBuffer (α : Type*) (w : Nat) where
  wrPtr : BitVec w
  rdPtr : BitVec w
  boundary : BitVec w
  emptyReg : Bool
  mem : BitVec w → α
  dO : Option α

structure DroppingBufferIn (α : Type*) where
  dI : α
  dDropI : Bool
  dAcceptI : Bool
  dValidI : Bool
  dReqI : Bool

/-- The words that can no longer be dropped and those that still can. -/
@[ext] structure Ledger (α : Type*) where
  committed : List α
  tentative : List α

namespace Ledger

variable {α : Type*}

def clear : Ledger α := ⟨[], []⟩

def length (l : Ledger α) : Nat := l.committed.length + l.tentative.length

def take (l : Ledger α) : Ledger α := { l with committed := l.committed.tail }

def accept (l : Ledger α) : Ledger α := ⟨l.committed ++ l.tentative, []⟩

def drop (l : Ledger α) : Ledger α := { l with tentative := [] }

def write (l : Ledger α) (d : α) : Ledger α := { l with tentative := l.tentative ++ [d] }

end Ledger

namespace DroppingBuffer

variable {α : Type*} {w : Nat}

def reset (fill : α) : DroppingBuffer α w where
  wrPtr := 0#w
  rdPtr := 0#w
  boundary := 0#w
  emptyReg := true
  mem := fun _ => fill
  dO := none

def emptyComb (s : DroppingBuffer α w) : Bool := s.boundary == s.rdPtr

def full (s : DroppingBuffer α w) : Bool := s.wrPtr + 1#w == s.rdPtr

def dReqO (s : DroppingBuffer α w) : Bool := !s.full

/-- The condition under which both `p_counters` and `p_mem_read` read. -/
def reads (s : DroppingBuffer α w) (i : DroppingBufferIn α) : Bool :=
  i.dReqI && !s.emptyReg && !s.emptyComb

def step (s : DroppingBuffer α w) (i : DroppingBufferIn α) : DroppingBuffer α w where
  wrPtr :=
    if i.dDropI then s.boundary else if i.dValidI && !s.full then s.wrPtr + 1#w else s.wrPtr
  rdPtr := if s.reads i then s.rdPtr + 1#w else s.rdPtr
  boundary := if i.dAcceptI then s.wrPtr else s.boundary
  emptyReg := s.emptyComb
  mem := if i.dValidI then Function.update s.mem s.wrPtr i.dI else s.mem
  dO := if s.reads i then some (s.mem s.rdPtr) else none

def ledger (s : DroppingBuffer α w) : Ledger α where
  committed := slice s.mem s.rdPtr (s.boundary - s.rdPtr).toNat
  tentative := slice s.mem s.boundary (s.wrPtr - s.boundary).toNat

/-- `rd_ptr`, `boundary` and `wr_ptr` follow each other around the ring. -/
def Ordered (s : DroppingBuffer α w) : Prop :=
  (s.boundary - s.rdPtr).toNat ≤ (s.wrPtr - s.rdPtr).toNat

instance (s : DroppingBuffer α w) : Decidable s.Ordered := inferInstanceAs (Decidable (_ ≤ _))

/-- Accept and drop at once, with something to swap. -/
def Swaps (s : DroppingBuffer α w) (i : DroppingBufferIn α) : Prop :=
  i.dAcceptI = true ∧ i.dDropI = true ∧ s.boundary ≠ s.wrPtr

instance (s : DroppingBuffer α w) (i : DroppingBufferIn α) : Decidable (s.Swaps i) :=
  inferInstanceAs (Decidable (_ ∧ _))

/-- What one edge does to a ledger. -/
def ledgerStep (s : DroppingBuffer α w) (i : DroppingBufferIn α) (l : Ledger α) : Ledger α :=
  let l := if s.reads i then l.take else l
  let l := if i.dAcceptI then l.accept else l
  if i.dDropI then l.drop else if i.dValidI && !s.full then l.write i.dI else l

/-- The pointers by distance: `c` committed words and `t` tentative ones. -/
structure Spans (s : DroppingBuffer α w) (c t : Nat) : Prop where
  boundary : s.boundary = s.rdPtr + BitVec.ofNat w c
  wrPtr : s.wrPtr = s.boundary + BitVec.ofNat w t
  short : c + t < 2 ^ w

theorem toNat_add_ofNat_sub (p : BitVec w) (n : Nat) (short : n < 2 ^ w) :
    (p + BitVec.ofNat w n - p).toNat = n := by
  rw [BitVec.add_comm, BitVec.add_sub_cancel, BitVec.toNat_ofNat, Nat.mod_eq_of_lt short]

theorem Spans.ledger_eq {s : DroppingBuffer α w} {c t : Nat} (spans : s.Spans c t) :
    s.ledger = ⟨slice s.mem s.rdPtr c, slice s.mem s.boundary t⟩ := by
  have first : (s.boundary - s.rdPtr).toNat = c := by
    rw [spans.boundary, toNat_add_ofNat_sub _ _ (by have := spans.short; omega)]
  have second : (s.wrPtr - s.boundary).toNat = t := by
    rw [spans.wrPtr, toNat_add_ofNat_sub _ _ (by have := spans.short; omega)]
  rw [ledger, first, second]

theorem Spans.wrPtr_eq {s : DroppingBuffer α w} {c t : Nat} (spans : s.Spans c t) :
    s.wrPtr = s.rdPtr + BitVec.ofNat w (c + t) := by
  rw [spans.wrPtr, spans.boundary, BitVec.add_assoc, BitVec.ofNat_add]

theorem ofNat_distance (p q : BitVec w) : p + BitVec.ofNat w (q - p).toNat = q := by
  rw [BitVec.ofNat_toNat, BitVec.setWidth_eq, BitVec.add_comm, BitVec.sub_add_cancel]

theorem ordered_iff_spans (s : DroppingBuffer α w) : s.Ordered ↔ ∃ c t, s.Spans c t := by
  constructor
  · intro ordered
    unfold Ordered at ordered
    have whole : (s.boundary - s.rdPtr).toNat +
        ((s.wrPtr - s.rdPtr).toNat - (s.boundary - s.rdPtr).toNat) = (s.wrPtr - s.rdPtr).toNat := by
      omega
    refine ⟨(s.boundary - s.rdPtr).toNat, (s.wrPtr - s.rdPtr).toNat - (s.boundary - s.rdPtr).toNat,
      (ofNat_distance _ _).symm, ?_, ?_⟩
    · calc s.wrPtr
          = s.rdPtr + BitVec.ofNat w (s.wrPtr - s.rdPtr).toNat := (ofNat_distance _ _).symm
        _ = s.rdPtr + BitVec.ofNat w (s.boundary - s.rdPtr).toNat +
              BitVec.ofNat w ((s.wrPtr - s.rdPtr).toNat - (s.boundary - s.rdPtr).toNat) := by
            rw [BitVec.add_assoc, ← BitVec.ofNat_add, whole]
        _ = _ := by rw [ofNat_distance]
    · rw [whole]
      exact (s.wrPtr - s.rdPtr).isLt
  · rintro ⟨c, t, spans⟩
    unfold Ordered
    rw [spans.wrPtr_eq, spans.boundary, toNat_add_ofNat_sub _ _ spans.short,
      toNat_add_ofNat_sub _ _ (by have := spans.short; omega)]
    omega

/-- The three things an edge does to the pointers, one after the other. -/
def read (s : DroppingBuffer α w) : DroppingBuffer α w := { s with rdPtr := s.rdPtr + 1#w }

def accept (s : DroppingBuffer α w) : DroppingBuffer α w := { s with boundary := s.wrPtr }

def drop (s : DroppingBuffer α w) : DroppingBuffer α w := { s with wrPtr := s.boundary }

def scribble (s : DroppingBuffer α w) (d : α) : DroppingBuffer α w :=
  { s with mem := Function.update s.mem s.wrPtr d }

def write (s : DroppingBuffer α w) (d : α) : DroppingBuffer α w :=
  { s.scribble d with wrPtr := s.wrPtr + 1#w }

theorem Spans.read {s : DroppingBuffer α w} {c t : Nat} (spans : s.Spans (c + 1) t) :
    s.read.Spans c t where
  boundary := by rw [DroppingBuffer.read, ring_succ, spans.boundary]
  wrPtr := spans.wrPtr
  short := by have := spans.short; omega

theorem Spans.accept {s : DroppingBuffer α w} {c t : Nat} (spans : s.Spans c t) :
    s.accept.Spans (c + t) 0 where
  boundary := spans.wrPtr_eq
  wrPtr := by simp [DroppingBuffer.accept]
  short := by have := spans.short; omega

theorem Spans.drop {s : DroppingBuffer α w} {c t : Nat} (spans : s.Spans c t) :
    s.drop.Spans c 0 where
  boundary := spans.boundary
  wrPtr := by simp [DroppingBuffer.drop]
  short := by have := spans.short; omega

theorem Spans.scribble {s : DroppingBuffer α w} {c t : Nat} (spans : s.Spans c t) (d : α) :
    (s.scribble d).Spans c t := ⟨spans.boundary, spans.wrPtr, spans.short⟩

theorem Spans.write {s : DroppingBuffer α w} {c t : Nat} (spans : s.Spans c t)
    (room : c + t + 1 < 2 ^ w) (d : α) : (s.write d).Spans c (t + 1) where
  boundary := spans.boundary
  wrPtr := by
    change s.wrPtr + 1#w = s.boundary + BitVec.ofNat w (t + 1)
    rw [spans.wrPtr, BitVec.add_assoc, BitVec.ofNat_add]
  short := room

theorem Spans.ledger_read {s : DroppingBuffer α w} {c t : Nat} (spans : s.Spans (c + 1) t) :
    s.read.ledger = s.ledger.take := by
  rw [spans.read.ledger_eq, spans.ledger_eq]
  rfl

theorem Spans.ledger_accept {s : DroppingBuffer α w} {c t : Nat} (spans : s.Spans c t) :
    s.accept.ledger = s.ledger.accept := by
  rw [spans.accept.ledger_eq, spans.ledger_eq, Ledger.accept]
  simp [DroppingBuffer.accept, slice_append, spans.boundary]

theorem Spans.ledger_drop {s : DroppingBuffer α w} {c t : Nat} (spans : s.Spans c t) :
    s.drop.ledger = s.ledger.drop := by
  rw [spans.drop.ledger_eq, spans.ledger_eq]
  rfl

/-- The cell under `wr_ptr` is in neither region. -/
theorem Spans.slices_scribble {s : DroppingBuffer α w} {c t : Nat} (spans : s.Spans c t) (d : α) :
    slice (Function.update s.mem s.wrPtr d) s.rdPtr c = slice s.mem s.rdPtr c ∧
      slice (Function.update s.mem s.wrPtr d) s.boundary t = slice s.mem s.boundary t := by
  have short := spans.short
  constructor
  · apply slice_write
    intro k less
    rw [spans.wrPtr_eq]
    exact ring_apart _ _ _ (by omega) short
  · apply slice_write
    intro k less
    rw [spans.wrPtr]
    exact ring_apart _ _ _ less (by omega)

theorem Spans.ledger_scribble {s : DroppingBuffer α w} {c t : Nat} (spans : s.Spans c t) (d : α) :
    (s.scribble d).ledger = s.ledger := by
  rw [(spans.scribble d).ledger_eq, spans.ledger_eq]
  exact Ledger.ext (spans.slices_scribble d).1 (spans.slices_scribble d).2

theorem Spans.ledger_write {s : DroppingBuffer α w} {c t : Nat} (spans : s.Spans c t)
    (room : c + t + 1 < 2 ^ w) (d : α) : (s.write d).ledger = s.ledger.write d := by
  rw [(spans.write room d).ledger_eq, spans.ledger_eq]
  refine Ledger.ext (spans.slices_scribble d).1 ?_
  change slice (Function.update s.mem s.wrPtr d) s.boundary (t + 1) = slice s.mem s.boundary t ++ [d]
  rw [slice_append, (spans.slices_scribble d).2, ← spans.wrPtr, slice_succ, slice_zero,
    Function.update_self]

theorem Spans.not_full {s : DroppingBuffer α w} {c t : Nat} (spans : s.Spans c t) :
    s.full = false ↔ c + t + 1 < 2 ^ w := by
  have behind : s.wrPtr + 1#w = s.rdPtr + BitVec.ofNat w (c + t + 1) := by
    rw [spans.wrPtr_eq, BitVec.add_assoc, ← BitVec.ofNat_add]
  rw [full, beq_eq_false_iff_ne, behind]
  constructor
  · intro differ
    have short := spans.short
    by_contra long
    have round : c + t + 1 = 2 ^ w := by omega
    have none : BitVec.ofNat w (2 ^ w) = 0#w := BitVec.eq_of_toNat_eq <| by
      rw [BitVec.toNat_ofNat, BitVec.toNat_ofNat, Nat.mod_self, Nat.zero_mod]
    exact differ (by rw [round, none, BitVec.add_zero])
  · intro short
    simpa using (ring_apart s.rdPtr 0 (c + t + 1) (by omega) short).symm

theorem Spans.not_empty {s : DroppingBuffer α w} {c t : Nat} (spans : s.Spans c t) :
    s.emptyComb = false ↔ c ≠ 0 := by
  rw [emptyComb, beq_eq_false_iff_ne, spans.boundary]
  constructor
  · rintro differ rfl
    exact differ (by simp)
  · intro some
    have short := spans.short
    simpa using (ring_apart s.rdPtr 0 c (by omega) (by omega)).symm

theorem Spans.reads_some {s : DroppingBuffer α w} {c t : Nat} (spans : s.Spans c t)
    {i : DroppingBufferIn α} (reads : s.reads i = true) : c ≠ 0 := by
  rw [← spans.not_empty]
  simp only [DroppingBuffer.reads, Bool.and_eq_true, Bool.not_eq_true'] at reads
  exact reads.2

/-- Without a swap an edge is a read, then an accept, then a drop or a write. -/
theorem step_parts (s : DroppingBuffer α w) (i : DroppingBufferIn α) (apart : ¬ s.Swaps i) :
    let r := if s.reads i then s.read else s
    let a := if i.dAcceptI then r.accept else r
    let p := if i.dDropI then (if i.dValidI then a.scribble i.dI else a).drop
      else if i.dValidI then (if s.full then a.scribble i.dI else a.write i.dI) else a
    s.step i = { p with emptyReg := (s.step i).emptyReg, dO := (s.step i).dO } := by
  obtain ⟨dI, drops, accepts, valid, req⟩ := i
  have same : accepts = true → drops = true → s.boundary = s.wrPtr := by
    intro hAccept hDrop
    by_contra differ
    exact apart ⟨hAccept, hDrop, differ⟩
  cases accepts <;> cases drops <;> cases valid <;> cases full : s.full <;>
    cases reads : s.reads ⟨dI, _, _, _, req⟩ <;>
    simp_all [step, read, accept, drop, scribble, write]

/-- The ring buffer refines the ledger, as long as an edge does not swap the two regions. -/
theorem Spans.step {s : DroppingBuffer α w} {c t : Nat} (spans : s.Spans c t)
    (i : DroppingBufferIn α) (apart : ¬ s.Swaps i) :
    (∃ c' t', (s.step i).Spans c' t') ∧ (s.step i).ledger = s.ledgerStep i s.ledger := by
  -- the registers that are no pointers do not matter to either
  have only_pointers : ∀ (p : DroppingBuffer α w) (e : Bool) (o : Option α),
      ((∃ c' t', p.Spans c' t') ∧ p.ledger = s.ledgerStep i s.ledger) →
      ((∃ c' t', ({ p with emptyReg := e, dO := o } : DroppingBuffer α w).Spans c' t') ∧
        ({ p with emptyReg := e, dO := o } : DroppingBuffer α w).ledger =
          s.ledgerStep i s.ledger) := by
    rintro p e o ⟨⟨c', t', after⟩, same⟩
    exact ⟨⟨c', t', after.boundary, after.wrPtr, after.short⟩, same⟩
  rw [step_parts s i apart]
  apply only_pointers
  -- the read
  obtain ⟨c₁, first, ledger₁, sum₁⟩ : ∃ c₁,
      (if s.reads i then s.read else s).Spans c₁ t ∧
      (if s.reads i then s.read else s).ledger = (if s.reads i then s.ledger.take else s.ledger) ∧
      c₁ ≤ c := by
    cases reads : s.reads i with
    | false => exact ⟨c, spans, rfl, le_rfl⟩
    | true =>
        obtain ⟨c₁, rfl⟩ := Nat.exists_eq_succ_of_ne_zero (spans.reads_some reads)
        exact ⟨c₁, spans.read, spans.ledger_read, by omega⟩
  generalize (if s.reads i then s.read else s) = r at first ledger₁ ⊢
  -- the accept
  obtain ⟨c₂, t₂, second, ledger₂, sum₂⟩ : ∃ c₂ t₂,
      (if i.dAcceptI then r.accept else r).Spans c₂ t₂ ∧
      (if i.dAcceptI then r.accept else r).ledger =
        (if i.dAcceptI then r.ledger.accept else r.ledger) ∧ c₂ + t₂ ≤ c + t := by
    cases i.dAcceptI with
    | false => exact ⟨c₁, t, first, rfl, by omega⟩
    | true => exact ⟨c₁ + t, 0, first.accept, first.ledger_accept, by omega⟩
  generalize (if i.dAcceptI then r.accept else r) = a at second ledger₂ ⊢
  -- the drop or the write
  simp only [ledgerStep]
  rw [← ledger₁, ← ledger₂]
  cases i.dDropI with
  | true =>
      cases i.dValidI with
      | false => exact ⟨⟨c₂, 0, second.drop⟩, second.ledger_drop⟩
      | true =>
          refine ⟨⟨c₂, 0, (second.scribble i.dI).drop⟩, ?_⟩
          simp [(second.scribble i.dI).ledger_drop, second.ledger_scribble]
  | false =>
      cases i.dValidI with
      | false => exact ⟨⟨c₂, t₂, second⟩, rfl⟩
      | true =>
          cases full : s.full with
          | true => exact ⟨⟨c₂, t₂, second.scribble i.dI⟩, second.ledger_scribble i.dI⟩
          | false =>
              have room := spans.not_full.1 full
              exact ⟨⟨c₂, t₂ + 1, second.write (by omega) i.dI⟩, second.ledger_write (by omega) i.dI⟩

theorem step_ordered (s : DroppingBuffer α w) (i : DroppingBufferIn α) (ordered : s.Ordered)
    (apart : ¬ s.Swaps i) : (s.step i).Ordered := by
  obtain ⟨c, t, spans⟩ := s.ordered_iff_spans.1 ordered
  exact (ordered_iff_spans _).2 (spans.step i apart).1

/-- An edge that swaps the regions leaves the pointers out of order. -/
theorem swap_disorders (s : DroppingBuffer α w) (i : DroppingBufferIn α) (ordered : s.Ordered)
    (swaps : s.Swaps i) : ¬ (s.step i).Ordered := by
  obtain ⟨c, t, spans⟩ := s.ordered_iff_spans.1 ordered
  obtain ⟨accepts, drops, differ⟩ := swaps
  have short := spans.short
  have some : t ≠ 0 := by
    rintro rfl
    exact differ (by simp [spans.wrPtr])
  have boundary_eq : (s.step i).boundary = s.wrPtr := by simp [step, accepts]
  have wrPtr_eq : (s.step i).wrPtr = s.boundary := by simp [step, drops]
  intro after
  unfold Ordered at after
  rw [boundary_eq, wrPtr_eq] at after
  cases reads : s.reads i with
  | false =>
      have rdPtr_eq : (s.step i).rdPtr = s.rdPtr := by simp [step, reads]
      rw [rdPtr_eq, spans.wrPtr_eq, spans.boundary, toNat_add_ofNat_sub _ _ short,
        toNat_add_ofNat_sub _ _ (by omega)] at after
      omega
  | true =>
      have rdPtr_eq : (s.step i).rdPtr = s.rdPtr + 1#w := by simp [step, reads]
      obtain ⟨c', rfl⟩ := Nat.exists_eq_succ_of_ne_zero (spans.reads_some reads)
      have first : s.wrPtr = s.rdPtr + 1#w + BitVec.ofNat w (c' + t) := by
        rw [ring_succ, spans.wrPtr_eq, Nat.succ_eq_add_one, Nat.add_right_comm]
      have second : s.boundary = s.rdPtr + 1#w + BitVec.ofNat w c' := by
        rw [ring_succ, spans.boundary]
      rw [rdPtr_eq, first, second, toNat_add_ofNat_sub _ _ (by omega),
        toNat_add_ofNat_sub _ _ (by omega)] at after
      omega

theorem step_ledger (s : DroppingBuffer α w) (i : DroppingBufferIn α) (ordered : s.Ordered)
    (apart : ¬ s.Swaps i) : (s.step i).ledger = s.ledgerStep i s.ledger := by
  obtain ⟨c, t, spans⟩ := s.ordered_iff_spans.1 ordered
  exact (spans.step i apart).2

theorem reset_ordered (fill : α) : (reset fill : DroppingBuffer α w).Ordered := by
  simp [Ordered, reset]

theorem reset_ledger (fill : α) : (reset fill : DroppingBuffer α w).ledger = Ledger.clear := by
  simp [ledger, reset, Ledger.clear]

theorem ledger_length (s : DroppingBuffer α w) (ordered : s.Ordered) :
    s.ledger.length < 2 ^ w ∧ (s.full = false ↔ s.ledger.length + 1 < 2 ^ w) := by
  obtain ⟨c, t, spans⟩ := s.ordered_iff_spans.1 ordered
  have counted : s.ledger.length = c + t := by simp [spans.ledger_eq, Ledger.length]
  rw [counted, spans.not_full]
  exact ⟨spans.short, Iff.rfl⟩

/-- A read hands out the oldest committed word. -/
theorem read_head (s : DroppingBuffer α w) (i : DroppingBufferIn α) (ordered : s.Ordered)
    (reads : s.reads i = true) : s.ledger.committed = s.mem s.rdPtr :: s.ledger.committed.tail := by
  obtain ⟨c, t, spans⟩ := s.ordered_iff_spans.1 ordered
  obtain ⟨c', rfl⟩ := Nat.exists_eq_succ_of_ne_zero (spans.reads_some reads)
  rw [spans.ledger_eq, slice_succ, List.tail_cons]

/-- The words an accept commits. -/
def commits (s : DroppingBuffer α w) (i : DroppingBufferIn α) : List α :=
  if i.dAcceptI then s.ledger.tentative else []

/-- What is committed and not yet shown. -/
def pending (s : DroppingBuffer α w) : List α := s.dO.toList ++ s.ledger.committed

theorem reset_pending (fill : α) : (reset fill : DroppingBuffer α w).pending = [] := by
  rw [pending, reset_ledger]
  rfl

/-- Every committed word is shown once, in order. -/
theorem commits_balanced (s : DroppingBuffer α w) (i : DroppingBufferIn α) (ordered : s.Ordered)
    (apart : ¬ s.Swaps i) : s.pending ++ s.commits i = s.dO.toList ++ (s.step i).pending := by
  have committed_step : (s.ledgerStep i s.ledger).committed =
      (if s.reads i then s.ledger.committed.tail else s.ledger.committed) ++ s.commits i := by
    simp only [ledgerStep, commits]
    cases s.reads i <;> cases i.dAcceptI <;> cases i.dDropI <;>
      simp [Ledger.take, Ledger.accept, Ledger.drop] <;> split <;> simp [Ledger.write]
  rw [pending, pending, step_ledger s i ordered apart, committed_step, List.append_assoc]
  congr 1
  cases reads : s.reads i with
  | false => simp [step, reads]
  | true =>
      rw [read_head s i ordered reads]
      simp [step, reads]

/-- The history of a run, from the inputs and `d_req_o`: all the words ever committed, and those written since. -/
def historyStep (s : DroppingBuffer α w) (i : DroppingBufferIn α) (l : Ledger α) : Ledger α :=
  let l := if i.dAcceptI then l.accept else l
  if i.dDropI then l.drop else if i.dValidI && s.dReqO then l.write i.dI else l

def history : DroppingBuffer α w → Ledger α → List (DroppingBufferIn α) → Ledger α
  | _, l, [] => l
  | s, l, i :: rest => history (s.step i) (s.historyStep i l) rest

/-- `d_accept_i` and `d_drop_i` are not asserted together. -/
def Apart (i : DroppingBufferIn α) : Prop := ¬(i.dAcceptI = true ∧ i.dDropI = true)

theorem Apart.not_swaps {i : DroppingBufferIn α} (apart : Apart i) (s : DroppingBuffer α w) : ¬s.Swaps i :=
  fun swaps => apart ⟨swaps.1, swaps.2.1⟩

/-- What has been shown and what is still to be shown make up the committed words of the history. -/
def Told (s : DroppingBuffer α w) (shown : List α) (l : Ledger α) : Prop :=
  shown ++ s.pending = l.committed ∧ s.ledger.tentative = l.tentative

theorem told_step {s : DroppingBuffer α w} {shown : List α} {l : Ledger α} (told : s.Told shown l)
    (ordered : s.Ordered) {i : DroppingBufferIn α} (apart : Apart i) :
    (s.step i).Told (shown ++ s.dO.toList) (s.historyStep i l) := by
  obtain ⟨sum, tentative⟩ := told
  have balance := s.commits_balanced i ordered (apart.not_swaps s)
  constructor
  · have committed : (s.historyStep i l).committed = l.committed ++ s.commits i := by
      simp only [historyStep, commits, tentative]
      cases i.dAcceptI <;> cases i.dDropI <;> simp [Ledger.accept, Ledger.drop] <;> split <;> simp [Ledger.write]
    rw [committed, ← sum, List.append_assoc, List.append_assoc, balance]
  · rw [step_ledger s i ordered (apart.not_swaps s)]
    simp only [ledgerStep, historyStep, dReqO]
    cases s.reads i <;> cases i.dAcceptI <;> cases i.dDropI <;>
      simp [Ledger.accept, Ledger.drop, Ledger.take, tentative] <;> split <;>
      simp [Ledger.write, tentative]

theorem told_run {s : DroppingBuffer α w} {shown : List α} {l : Ledger α} (told : s.Told shown l)
    (ordered : s.Ordered) {inputs : List (DroppingBufferIn α)} (apart : ∀ i ∈ inputs, Apart i) :
    (run step s inputs).Ordered ∧
      (run step s inputs).Told (shown ++ collect step (fun s _ => s.dO.toList) s inputs) (history s l inputs) := by
  induction inputs generalizing s shown l with
  | nil =>
      refine ⟨ordered, ?_⟩
      rw [collect_nil, List.append_nil]
      exact told
  | cons i rest ih =>
      rw [List.forall_mem_cons] at apart
      have next := told_step told ordered apart.1
      have later := ih next (s.step_ordered i ordered (apart.1.not_swaps s)) apart.2
      rw [run_cons, collect_cons, ← List.append_assoc]
      exact later

/-- From the reset on, whatever is in the memory: the words shown, with the one that is at the port and those
still to be read, are the committed ones of the history in order; the words written since the last accept are
behind them, and what an edge leaves of the unread committed words is what they were. -/
theorem transactional (start : DroppingBuffer α w) (reset : start.wrPtr = 0 ∧ start.rdPtr = 0 ∧ start.boundary = 0)
    (silent : start.dO = none) (inputs : List (DroppingBufferIn α)) (apart : ∀ i ∈ inputs, Apart i) :
    let s := run step start inputs
    let told := history start Ledger.clear inputs
    collect step (fun s _ => s.dO.toList) start inputs ++ s.dO.toList ++ s.ledger.committed = told.committed ∧
      s.ledger.tentative = told.tentative ∧
      ∀ i, Apart i → (s.step i).ledger.committed =
        (if s.reads i then s.ledger.committed.tail else s.ledger.committed) ++
          (if i.dAcceptI then s.ledger.tentative else []) := by
  intro s told
  have ordered : start.Ordered := by
    rw [Ordered, reset.1, reset.2.1, reset.2.2]
  have empty : start.Told [] Ledger.clear := by
    simp [Told, pending, ledger, silent, reset, Ledger.clear]
  obtain ⟨ordered', sum, tentative⟩ := told_run empty ordered apart
  rw [List.nil_append, pending, ← List.append_assoc] at sum
  refine ⟨sum, tentative, ?_⟩
  intro i single
  rw [step_ledger s i ordered' (single.not_swaps s)]
  simp only [ledgerStep]
  cases s.reads i <;> cases i.dAcceptI <;> cases i.dDropI <;>
    simp [Ledger.take, Ledger.accept, Ledger.drop] <;> split <;> simp [Ledger.write]

/-- Four words of memory: 1 and 2 are written, 1 is committed, 2 dropped, 3 written over it and committed. -/
theorem transactional_drop :
    let start : DroppingBuffer Nat 2 := DroppingBuffer.reset 0
    let write (d : Nat) (accept : Bool) : DroppingBufferIn Nat := ⟨d, false, accept, true, true⟩
    let inputs := [write 1 false, write 2 true, ⟨0, true, false, false, true⟩, write 3 false,
      ⟨0, false, true, false, true⟩, ⟨0, false, false, false, true⟩, ⟨0, false, false, false, true⟩]
    (∀ i ∈ inputs, Apart i) ∧ collect step (fun s _ => s.dO.toList) start inputs ++ [3] = [1, 3] := by
  intro start write inputs
  have apart : ∀ i ∈ inputs, Apart i := by
    intro i member both
    have singles : ∀ j ∈ inputs, (j.dAcceptI && j.dDropI) = false := by decide
    have single := singles i member
    rw [both.1, both.2] at single
    exact absurd single (by decide)
  obtain ⟨sum, -, -⟩ := transactional start ⟨rfl, rfl, rfl⟩ rfl inputs apart
  refine ⟨apart, ?_⟩
  have last : (run step start inputs).dO.toList ++ (run step start inputs).ledger.committed = [3] := by decide
  have all : (history start Ledger.clear inputs).committed = [1, 3] := by decide
  rw [List.append_assoc, last, all] at sum
  exact sum

end DroppingBuffer

end WrCores.Streamers
