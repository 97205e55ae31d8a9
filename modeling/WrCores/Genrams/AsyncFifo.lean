import WrCores.Clocked.Counts
import WrCores.Clocked.Pointers
import WrCores.Clocked.Run
import WrCores.Words.Gray

/-!
inferred_async_fifo.vhd with two gc_sync_register.vhd, for `2 ^ k` words. The edges of the two clocks come in any order;
where both come at one time, the first register of a synchronizer finds each bit of the pointer before or after its
change. The flags that are carried to the other clock and a reset during the run are left out.
-/

namespace WrCores.Genrams

open Clocked Words

section Codes

variable {w : Nat}

def fBin2gray (bin : BitVec (w + 1)) : BitVec (w + 1) :=
  BitVec.cons bin.msb (bin.extractLsb' 0 w ^^^ bin.extractLsb' 1 w)

/-- One turn of the outer loop of `f_gray2bin`. -/
def grayBit (gray : BitVec w) (i : Nat) : Bool :=
  (List.range' i (w - i)).foldl (fun bin j => bin ^^ gray.getLsbD j) false

def fGray2bin (gray : BitVec w) : BitVec w :=
  (BitVec.ofBoolListLE ((List.range w).map (grayBit gray))).cast (by simp)

theorem fBin2gray_eq (bin : BitVec (w + 1)) : fBin2gray bin = Gray.encode bin := by
  apply BitVec.eq_of_getLsbD_eq
  intro i inside
  rw [Gray.encode, Gray.getLsbD_shiftXor, fBin2gray, BitVec.getLsbD_cons]
  rcases eq_or_ne i w with rfl | other
  · simp [BitVec.msb_eq_getLsbD_last, Nat.add_comm 1 i]
  · simp [other, show i < w by omega]

theorem foldl_xor (bits : Nat → Bool) (start : Bool) (js : List Nat) :
    js.foldl (fun bin j => bin ^^ bits j) start = (start ^^ js.foldl (fun bin j => bin ^^ bits j) false) := by
  induction js generalizing start with
  | nil => simp
  | cons j js ih =>
      rw [List.foldl_cons, List.foldl_cons, ih (start ^^ bits j), ih (false ^^ bits j)]
      simp

theorem grayBit_next (gray : BitVec w) {i : Nat} (inside : i < w) :
    grayBit gray i = (gray.getLsbD i ^^ grayBit gray (i + 1)) := by
  have first : List.range' i (w - i) = i :: List.range' (i + 1) (w - (i + 1)) := by
    rw [show w - i = w - (i + 1) + 1 by omega, List.range'_succ]
  rw [grayBit, first, List.foldl_cons, foldl_xor (gray.getLsbD ·), Bool.false_xor, grayBit]

theorem getLsbD_fGray2bin (gray : BitVec w) (i : Nat) : (fGray2bin gray).getLsbD i = grayBit gray i := by
  rw [fGray2bin, BitVec.getLsbD_cast, BitVec.getLsbD_ofBoolListLE, List.getD_eq_getElem?_getD, List.getElem?_map]
  rcases Nat.lt_or_ge i w with inside | beyond
  · simp [inside]
  · simp [beyond, grayBit, show w - i = 0 by omega]

theorem fGray2bin_eq (gray : BitVec w) : fGray2bin gray = Gray.decode gray 1 Nat.one_pos := by
  apply Gray.encode_inj
  rw [Gray.encode_decode]
  apply BitVec.eq_of_getLsbD_eq
  intro i inside
  rw [Gray.encode, Gray.getLsbD_shiftXor, getLsbD_fGray2bin, getLsbD_fGray2bin, grayBit_next gray inside,
    Nat.add_comm 1 i, Bool.xor_assoc, Bool.xor_self, Bool.xor_false]

end Codes

/-- What happens at one time: the clocks with an edge, the ports, and the bits that a synchronizer finds changed. -/
structure AsyncEdge (k : Nat) (α : Type*) where
  clkWr : Bool
  clkRd : Bool
  d : α
  we : Bool
  rd : Bool
  chosenWr : BitVec (k + 1)
  chosenRd : BitVec (k + 1)

structure AsyncFifo (k : Nat) (α : Type*) where
  mem : BitVec k → α
  qO : α
  wcbBin : BitVec (k + 1)
  wcbGray : BitVec (k + 1)
  rcbBin : BitVec (k + 1)
  rcbGray : BitVec (k + 1)
  /-- The registers that carry the read pointer to the write clock. -/
  rcbSync0 : BitVec (k + 1)
  rcbGrayX : BitVec (k + 1)
  wcbSync0 : BitVec (k + 1)
  wcbGrayX : BitVec (k + 1)
  emptyInt : Bool
  fullInt : Bool
  wrCount : BitVec (k + 1)
  rdCount : BitVec (k + 1)
  almostFullInt : Bool
  almostEmptyInt : Bool

namespace AsyncFifo

variable {k : Nat} {α : Type*}

/-- After reset; the memory, the output and the word counters are not cleared. -/
def reset (mem : BitVec k → α) (qO : α) (wrCount rdCount : BitVec (k + 1)) : AsyncFifo k α where
  mem := mem
  qO := qO
  wcbBin := 0
  wcbGray := 0
  rcbBin := 0
  rcbGray := 0
  rcbSync0 := 0
  rcbGrayX := 0
  wcbSync0 := 0
  wcbGrayX := 0
  emptyInt := true
  fullInt := false
  wrCount := wrCount
  rdCount := rdCount
  almostFullInt := false
  almostEmptyInt := true

section Source

variable (gAlmostEmptyThreshold gAlmostFullThreshold : Nat) (s : AsyncFifo k α) (e : AsyncEdge k α)

def rdInt : Bool := e.rd && !s.emptyInt

def weInt : Bool := e.we && !s.fullInt

def wcbBinNext : BitVec (k + 1) := s.wcbBin + 1#(k + 1)

def rcbBinNext : BitVec (k + 1) := s.rcbBin + 1#(k + 1)

def wcbBinX : BitVec (k + 1) := fGray2bin s.wcbGrayX

def rcbBinX : BitVec (k + 1) := fGray2bin s.rcbGrayX

/-- The pointers address one word and differ in the bit above. -/
def apart (wr rd : BitVec (k + 1)) : Bool := wr.setWidth k == rd.setWidth k && wr.msb != rd.msb

def goingFull : Bool :=
  if apart s.wcbBin s.rcbBinX then true
  else if s.weInt e && apart s.wcbBinNext s.rcbBinX then true
  else false

def emptyNext : Bool := s.rcbGray == s.wcbGrayX || (s.rdInt e && s.wcbGrayX == fBin2gray s.rcbBinNext)

def wcbGrayNext : BitVec (k + 1) := if e.clkWr && s.weInt e then fBin2gray s.wcbBinNext else s.wcbGray

def rcbGrayNext : BitVec (k + 1) := if e.clkRd && s.rdInt e then fBin2gray s.rcbBinNext else s.rcbGray

def step : AsyncFifo k α where
  mem := if e.clkWr && s.weInt e then Function.update s.mem (s.wcbBin.setWidth k) e.d else s.mem
  qO := if e.clkRd && s.rdInt e then s.mem (s.rcbBin.setWidth k) else s.qO
  wcbBin := if e.clkWr && s.weInt e then s.wcbBinNext else s.wcbBin
  wcbGray := s.wcbGrayNext e
  rcbBin := if e.clkRd && s.rdInt e then s.rcbBinNext else s.rcbBin
  rcbGray := s.rcbGrayNext e
  rcbSync0 := if e.clkWr then Gray.mixture e.chosenWr s.rcbGray (s.rcbGrayNext e) else s.rcbSync0
  rcbGrayX := if e.clkWr then s.rcbSync0 else s.rcbGrayX
  wcbSync0 := if e.clkRd then Gray.mixture e.chosenRd s.wcbGray (s.wcbGrayNext e) else s.wcbSync0
  wcbGrayX := if e.clkRd then s.wcbSync0 else s.wcbGrayX
  emptyInt := if e.clkRd then s.emptyNext e else s.emptyInt
  fullInt := if e.clkWr then s.goingFull e else s.fullInt
  wrCount := if e.clkWr then s.wcbBin - s.rcbBinX else s.wrCount
  rdCount := if e.clkRd then s.wcbBinX - s.rcbBin else s.rdCount
  almostFullInt := if e.clkWr then gAlmostFullThreshold ≤ s.wrCount.toNat else s.almostFullInt
  almostEmptyInt := if e.clkRd then s.rdCount.toNat ≤ gAlmostEmptyThreshold else s.almostEmptyInt

/-- The words that have been written and not been read. -/
def stored : List α := slice s.mem (s.rcbBin.setWidth k) (s.wcbBin - s.rcbBin).toNat

def written : List α := if e.clkWr && s.weInt e then [e.d] else []

/-- The word that the output shows behind an edge at which it is read. -/
def taken : List α :=
  if e.clkRd && s.rdInt e then [(s.step gAlmostEmptyThreshold gAlmostFullThreshold e).qO] else []

end Source

/-! ### Pointers as counts -/

/-- The registers hold the counts, as far as their width goes. -/
structure Holds (s : AsyncFifo k α) (c : Counts) : Prop where
  wcbBin : s.wcbBin = BitVec.ofNat (k + 1) c.written
  wcbGray : s.wcbGray = Gray.encode (BitVec.ofNat (k + 1) c.written)
  wcbSync0 : s.wcbSync0 = Gray.encode (BitVec.ofNat (k + 1) c.writtenNew)
  wcbGrayX : s.wcbGrayX = Gray.encode (BitVec.ofNat (k + 1) c.writtenSeen)
  rcbBin : s.rcbBin = BitVec.ofNat (k + 1) c.taken
  rcbGray : s.rcbGray = Gray.encode (BitVec.ofNat (k + 1) c.taken)
  rcbSync0 : s.rcbSync0 = Gray.encode (BitVec.ofNat (k + 1) c.takenNew)
  rcbGrayX : s.rcbGrayX = Gray.encode (BitVec.ofNat (k + 1) c.takenSeen)
  ordered : c.Ordered (2 ^ k)
  empty : s.emptyInt = false → c.taken < c.writtenSeen
  full : s.fullInt = false → c.written < c.takenSeen + 2 ^ k

variable {gAlmostEmptyThreshold gAlmostFullThreshold : Nat} {s : AsyncFifo k α} {e : AsyncEdge k α} {c : Counts}

theorem apart_iff {wr rd : Nat} (less : rd ≤ wr) (room : wr ≤ rd + 2 ^ k) :
    apart (BitVec.ofNat (k + 1) wr) (BitVec.ofNat (k + 1) rd) = true ↔ wr = rd + 2 ^ k := by
  rw [apart, setWidth_ofNat, setWidth_ofNat, msb_ofNat, msb_ofNat, Bool.and_eq_true, beq_iff_eq, bne_iff_ne]
  constructor
  · rintro ⟨same, turned⟩
    by_contra less'
    have equal : rd = wr := by
      have values := congrArg BitVec.toNat same
      rw [BitVec.toNat_ofNat, BitVec.toNat_ofNat] at values
      obtain ⟨d, rfl⟩ := Nat.exists_eq_add_of_le less
      have zero : d % 2 ^ k = 0 := Nat.ModEq.add_left_cancel' rd (show rd + d ≡ rd + 0 [MOD 2 ^ k] from values)
      rw [Nat.mod_eq_of_lt (by omega)] at zero
      omega
    exact turned (by rw [equal])
  · rintro rfl
    refine ⟨?_, ?_⟩
    · apply BitVec.eq_of_toNat_eq
      rw [BitVec.toNat_ofNat, BitVec.toNat_ofNat, Nat.add_mod_right]
    · rw [Nat.add_comm, Nat.testBit_two_pow_add_eq]
      simp

/-- A synchronizer finds a pointer before or after its step, whatever bits it finds changed. -/
theorem mixture_counts (chosen : BitVec (k + 1)) (n : Nat) (moves : Bool) : ∃ m, n ≤ m ∧ m ≤ n + moves.toNat ∧
    Gray.mixture chosen (Gray.encode (BitVec.ofNat (k + 1) n)) (Gray.encode (BitVec.ofNat (k + 1) (n + moves.toNat))) =
      Gray.encode (BitVec.ofNat (k + 1) m) := by
  cases moves with
  | false => exact ⟨n, le_rfl, le_rfl, Gray.mixture_self _ chosen⟩
  | true =>
      rw [Bool.toNat_true]
      have one : BitVec.twoPow (k + 1) 0 = 1#(k + 1) := by
        apply BitVec.eq_of_toNat_eq
        rw [BitVec.toNat_twoPow_of_lt (Nat.succ_pos k), BitVec.toNat_ofNat, pow_zero,
          Nat.mod_eq_of_lt (Nat.one_lt_two_pow (Nat.succ_ne_zero k))]
      have told := Gray.decode_mixture_step (BitVec.ofNat (k + 1) n) 0 chosen
      rw [one, ofNat_next] at told
      simp only [BitVec.ushiftRight_zero] at told
      rcases told with old | new
      · exact ⟨n, le_rfl, Nat.le_succ n, (Gray.encode_decode _).symm.trans (congrArg Gray.encode old)⟩
      · exact ⟨n + 1, Nat.le_succ n, le_rfl, (Gray.encode_decode _).symm.trans (congrArg Gray.encode new)⟩

theorem reset_holds (mem : BitVec k → α) (qO : α) (wrCount rdCount : BitVec (k + 1)) :
    (reset mem qO wrCount rdCount).Holds Counts.zero := by
  have none : (0 : BitVec (k + 1)) = Gray.encode (BitVec.ofNat (k + 1) 0) := Gray.encode_zero.symm
  have free : 0 < 0 + 2 ^ k := by rw [Nat.zero_add]; exact Nat.two_pow_pos k
  exact ⟨rfl, none, none, none, rfl, none, none, none, Counts.zero_ordered, nofun, fun _ => free⟩

/-! ### Steps -/

variable (s e) in
def turn : Turn := ⟨e.clkWr, e.clkRd, s.weInt e, s.rdInt e⟩

theorem Holds.writes (holds : s.Holds c) (we : s.weInt e = true) : c.written < c.takenSeen + 2 ^ k :=
  holds.full (by simpa using (Bool.and_eq_true_iff.1 we).2)

theorem Holds.takes (holds : s.Holds c) (rd : s.rdInt e = true) : c.taken < c.writtenSeen :=
  holds.empty (by simpa using (Bool.and_eq_true_iff.1 rd).2)

theorem Holds.wcbBinNext (holds : s.Holds c) : s.wcbBinNext = BitVec.ofNat (k + 1) (c.written + 1) := by
  rw [AsyncFifo.wcbBinNext, holds.wcbBin, ofNat_next]

theorem Holds.rcbBinNext (holds : s.Holds c) : s.rcbBinNext = BitVec.ofNat (k + 1) (c.taken + 1) := by
  rw [AsyncFifo.rcbBinNext, holds.rcbBin, ofNat_next]

theorem Holds.wcbGrayNext (holds : s.Holds c) : s.wcbGrayNext e =
    Gray.encode (BitVec.ofNat (k + 1) (c.written + (e.clkWr && s.weInt e).toNat)) := by
  rw [AsyncFifo.wcbGrayNext, holds.wcbBinNext, fBin2gray_eq, holds.wcbGray]
  cases e.clkWr && s.weInt e <;> rfl

theorem Holds.rcbGrayNext (holds : s.Holds c) : s.rcbGrayNext e =
    Gray.encode (BitVec.ofNat (k + 1) (c.taken + (e.clkRd && s.rdInt e).toNat)) := by
  rw [AsyncFifo.rcbGrayNext, holds.rcbBinNext, fBin2gray_eq, holds.rcbGray]
  cases e.clkRd && s.rdInt e <;> rfl

theorem Holds.wcbBinX (holds : s.Holds c) : s.wcbBinX = BitVec.ofNat (k + 1) c.writtenSeen := by
  rw [AsyncFifo.wcbBinX, fGray2bin_eq, holds.wcbGrayX, Gray.decode_encode]

theorem Holds.rcbBinX (holds : s.Holds c) : s.rcbBinX = BitVec.ofNat (k + 1) c.takenSeen := by
  rw [AsyncFifo.rcbBinX, fGray2bin_eq, holds.rcbGrayX, Gray.decode_encode]

theorem encode_close {m n : Nat} (less : m ≤ n) (close : n < m + 2 ^ (k + 1)) :
    Gray.encode (BitVec.ofNat (k + 1) m) = Gray.encode (BitVec.ofNat (k + 1) n) ↔ m = n :=
  ⟨fun same => (ofNat_close less close).1 (Gray.encode_inj same), fun same => by rw [same]⟩

/-- The reader goes empty when it has taken what it knows of. -/
theorem Holds.emptyNext_iff (holds : s.Holds c) :
    s.emptyNext e = true ↔ c.taken + (s.rdInt e).toNat = c.writtenSeen := by
  obtain ⟨seenTaken, newTaken, taken, seen, new, room⟩ := holds.ordered
  have wide := twoPow_succ k
  have positive := Nat.two_pow_pos k
  rw [emptyNext, holds.rcbGray, holds.wcbGrayX, holds.rcbBinNext, fBin2gray_eq, Bool.or_eq_true, beq_iff_eq,
    encode_close taken (by omega)]
  cases rd : s.rdInt e with
  | false => simp
  | true =>
      have behind := holds.takes rd
      rw [Bool.true_and, beq_iff_eq, eq_comm (a := Gray.encode (BitVec.ofNat (k + 1) c.writtenSeen)),
        encode_close (by omega) (by omega), Bool.toNat_true]
      omega

/-- The writer goes full when it has written all that it knows to have room. -/
theorem Holds.goingFull_iff (holds : s.Holds c) :
    s.goingFull e = true ↔ c.written + (s.weInt e).toNat = c.takenSeen + 2 ^ k := by
  obtain ⟨seenTaken, newTaken, taken, seen, new, room⟩ := holds.ordered
  have now := apart_iff (k := k) (show c.takenSeen ≤ c.written by omega) room
  rw [goingFull, holds.wcbBin, holds.rcbBinX, holds.wcbBinNext]
  cases we : s.weInt e with
  | false =>
      rw [Bool.toNat_false, Nat.add_zero c.written, ← now]
      simp
  | true =>
      have before := holds.writes we
      have next := apart_iff (k := k) (show c.takenSeen ≤ c.written + 1 by omega) (by omega)
      rw [Bool.toNat_true, ← next]
      simp [show ¬ apart (BitVec.ofNat (k + 1) c.written) (BitVec.ofNat (k + 1) c.takenSeen) = true from
        fun full => by have := now.1 full; omega]

/-- What an edge makes of the counts, and what each flag says behind an edge of its own clock. -/
structure Steps (gAlmostEmptyThreshold gAlmostFullThreshold : Nat) (s : AsyncFifo k α) (e : AsyncEdge k α)
    (c c' : Counts) : Prop where
  moves : Counts.Moves (s.turn e) c c'
  holds : (s.step gAlmostEmptyThreshold gAlmostFullThreshold e).Holds c'
  empty : e.clkRd = true →
    ((s.step gAlmostEmptyThreshold gAlmostFullThreshold e).emptyInt = true ↔ c'.taken = c.writtenSeen)
  full : e.clkWr = true →
    ((s.step gAlmostEmptyThreshold gAlmostFullThreshold e).fullInt = true ↔ c'.written = c.takenSeen + 2 ^ k)

variable (gAlmostEmptyThreshold gAlmostFullThreshold e) in
theorem Holds.step (holds : s.Holds c) : ∃ c', Steps gAlmostEmptyThreshold gAlmostFullThreshold s e c c' := by
  obtain ⟨m, mOld, mNew, mixed⟩ := mixture_counts e.chosenRd c.written (e.clkWr && s.weInt e)
  obtain ⟨n, nOld, nNew, mixed'⟩ := mixture_counts e.chosenWr c.taken (e.clkRd && s.rdInt e)
  let c' : Counts := {
    written := c.written + (e.clkWr && s.weInt e).toNat
    writtenNew := if e.clkRd then m else c.writtenNew
    writtenSeen := if e.clkRd then c.writtenNew else c.writtenSeen
    taken := c.taken + (e.clkRd && s.rdInt e).toNat
    takenNew := if e.clkWr then n else c.takenNew
    takenSeen := if e.clkWr then c.takenNew else c.takenSeen }
  have moves : Counts.Moves (s.turn e) c c' := by
    refine ⟨rfl, rfl, ?_, rfl, ?_, rfl⟩
    · change if e.clkWr then _ else _
      split <;> rename_i edge
      · simp only [c', edge, if_true]
        exact ⟨nOld, nNew⟩
      · simp only [c', edge, Bool.false_eq_true, if_false]
    · change if e.clkRd then _ else _
      split <;> rename_i edge
      · simp only [c', edge, if_true]
        exact ⟨mOld, mNew⟩
      · simp only [c', edge, Bool.false_eq_true, if_false]
  have ordered := holds.ordered.moves moves holds.writes holds.takes
  have empty (edge : e.clkRd = true) :
      (s.step gAlmostEmptyThreshold gAlmostFullThreshold e).emptyInt = true ↔ c'.taken = c.writtenSeen := by
    simp only [AsyncFifo.step, edge, if_true, c', Bool.true_and]
    exact holds.emptyNext_iff
  have full (edge : e.clkWr = true) :
      (s.step gAlmostEmptyThreshold gAlmostFullThreshold e).fullInt = true ↔ c'.written = c.takenSeen + 2 ^ k := by
    simp only [AsyncFifo.step, edge, if_true, c', Bool.true_and]
    exact holds.goingFull_iff
  refine ⟨c', moves, ⟨?_, holds.wcbGrayNext, ?_, ?_, ?_, holds.rcbGrayNext, ?_, ?_, ordered, ?_, ?_⟩, empty,
    full⟩
  · change (if e.clkWr && s.weInt e then s.wcbBinNext else s.wcbBin) = _
    rw [holds.wcbBinNext, holds.wcbBin]
    simp only [c']
    cases e.clkWr && s.weInt e <;> rfl
  · change (if e.clkRd then Gray.mixture e.chosenRd s.wcbGray (s.wcbGrayNext e) else s.wcbSync0) = _
    rw [holds.wcbGrayNext, holds.wcbGray, holds.wcbSync0, mixed]
    simp only [c', apply_ite (BitVec.ofNat (k + 1)), apply_ite Gray.encode]
  · change (if e.clkRd then s.wcbSync0 else s.wcbGrayX) = _
    rw [holds.wcbSync0, holds.wcbGrayX]
    simp only [c', apply_ite (BitVec.ofNat (k + 1)), apply_ite Gray.encode]
  · change (if e.clkRd && s.rdInt e then s.rcbBinNext else s.rcbBin) = _
    rw [holds.rcbBinNext, holds.rcbBin]
    simp only [c']
    cases e.clkRd && s.rdInt e <;> rfl
  · change (if e.clkWr then Gray.mixture e.chosenWr s.rcbGray (s.rcbGrayNext e) else s.rcbSync0) = _
    rw [holds.rcbGrayNext, holds.rcbGray, holds.rcbSync0, mixed']
    simp only [c', apply_ite (BitVec.ofNat (k + 1)), apply_ite Gray.encode]
  · change (if e.clkWr then s.rcbSync0 else s.rcbGrayX) = _
    rw [holds.rcbSync0, holds.rcbGrayX]
    simp only [c', apply_ite (BitVec.ofNat (k + 1)), apply_ite Gray.encode]
  · intro more
    have known := ordered.taken
    cases edge : e.clkRd with
    | true =>
        have other : c'.taken ≠ c.writtenSeen := fun same => by simp [(empty edge).2 same] at more
        have upTo : c'.taken ≤ c.writtenSeen := by
          have limit := holds.ordered.taken
          simp only [c', edge, Bool.true_and] at other ⊢
          cases rd : s.rdInt e with
          | false => simpa [rd] using limit
          | true => exact holds.takes rd
        have later : c.writtenSeen ≤ c'.writtenSeen := by
          simpa [c', edge] using holds.ordered.writtenSeen
        omega
    | false =>
        have before : s.emptyInt = false := by simpa [AsyncFifo.step, edge] using more
        simpa [c', edge] using holds.empty before
  · intro more
    cases edge : e.clkWr with
    | true =>
        have other : c'.written ≠ c.takenSeen + 2 ^ k := fun same => by simp [(full edge).2 same] at more
        have upTo : c'.written ≤ c.takenSeen + 2 ^ k := by
          have limit := holds.ordered.room
          simp only [c', edge, Bool.true_and] at other ⊢
          cases we : s.weInt e with
          | false => simpa [we] using limit
          | true => exact holds.writes we
        have later : c.takenSeen ≤ c'.takenSeen := by
          simpa [c', edge] using holds.ordered.takenSeen
        omega
    | false =>
        have before : s.fullInt = false := by simpa [AsyncFifo.step, edge] using more
        simpa [c', edge] using holds.full before

/-! ### The words -/

theorem Holds.count (holds : s.Holds c) : (s.wcbBin - s.rcbBin).toNat = c.written - c.taken := by
  obtain ⟨below, above⟩ := holds.ordered.stored
  have wide := twoPow_succ k
  have positive := Nat.two_pow_pos k
  rw [holds.wcbBin, holds.rcbBin, distance below (by omega)]

theorem Holds.stored_eq (holds : s.Holds c) :
    s.stored = slice s.mem (BitVec.ofNat k c.taken) (c.written - c.taken) := by
  rw [stored, holds.count, holds.rcbBin, setWidth_ofNat]

theorem Holds.stored_length (holds : s.Holds c) : s.stored.length = c.written - c.taken := by
  rw [stored, slice_length, holds.count]

/-- What an edge writes goes in at the end, and what it reads comes out in front. -/
theorem Holds.balanced (holds : s.Holds c) :
    s.stored ++ s.written e = s.taken gAlmostEmptyThreshold gAlmostFullThreshold e ++
      (s.step gAlmostEmptyThreshold gAlmostFullThreshold e).stored := by
  obtain ⟨c', steps⟩ := holds.step gAlmostEmptyThreshold gAlmostFullThreshold e
  obtain ⟨below, above⟩ := holds.ordered.stored
  have order := holds.ordered
  obtain ⟨below', above'⟩ := steps.holds.ordered.stored
  have cell : s.wcbBin.setWidth k = BitVec.ofNat k c.written := by rw [holds.wcbBin, setWidth_ofNat]
  have front : s.rcbBin.setWidth k = BitVec.ofNat k c.taken := by rw [holds.rcbBin, setWidth_ofNat]
  have pushed : s.stored ++ s.written e = slice (s.step gAlmostEmptyThreshold gAlmostFullThreshold e).mem
      (BitVec.ofNat k c.taken) (c'.written - c.taken) := by
    rw [holds.stored_eq, written, AsyncFifo.step, cell, steps.moves.written]
    change _ = slice (if e.clkWr && s.weInt e then _ else _) _ (c.written + (e.clkWr && s.weInt e).toNat - c.taken)
    cases writes : e.clkWr && s.weInt e with
    | false => simp
    | true =>
        have room := holds.writes (Bool.and_eq_true_iff.1 writes).2
        have seen := order.takenSeen.trans order.takenNew
        rw [if_pos rfl, if_pos rfl, Bool.toNat_true, slice_push s.mem below (by omega)]
  rw [pushed, steps.holds.stored_eq, steps.moves.taken, taken]
  change _ = _ ++ slice _ (BitVec.ofNat k (c.taken + (e.clkRd && s.rdInt e).toNat))
    (c'.written - (c.taken + (e.clkRd && s.rdInt e).toNat))
  cases takes : e.clkRd && s.rdInt e with
  | false => rfl
  | true =>
      have some' := holds.takes (Bool.and_eq_true_iff.1 takes).2
      have more := steps.moves.written
      have known := order.writtenSeen.trans order.writtenNew
      rw [if_pos rfl, Bool.toNat_true, slice_pop _ (by omega), List.singleton_append]
      congr 1
      -- the cell that is read is not the one that is written
      change (if e.clkWr && s.weInt e then Function.update s.mem (s.wcbBin.setWidth k) e.d else s.mem) _ =
        if e.clkRd && s.rdInt e then s.mem (s.rcbBin.setWidth k) else s.qO
      rw [if_pos takes, front, cell]
      cases writes : e.clkWr && s.weInt e with
      | false => rfl
      | true =>
          have room := holds.writes (Bool.and_eq_true_iff.1 writes).2
          have seen := order.takenSeen.trans order.takenNew
          rw [if_pos rfl, Function.update_of_ne]
          obtain ⟨j, far⟩ := Nat.exists_eq_add_of_lt (some'.trans_le known)
          have other := ring_apart (BitVec.ofNat k c.taken) 0 (j + 1) (Nat.succ_pos j) (by omega)
          rw [far, Nat.add_assoc, BitVec.ofNat_add]
          simpa using other

/-! ### Runs -/

section Runs

variable (gAlmostEmptyThreshold gAlmostFullThreshold : Nat)

theorem run_holds (holds : s.Holds c) (edges : List (AsyncEdge k α)) :
    ∃ c', (run (step gAlmostEmptyThreshold gAlmostFullThreshold) s edges).Holds c' := by
  induction edges generalizing s c with
  | nil => exact ⟨c, holds⟩
  | cons e rest ih =>
      obtain ⟨_, steps⟩ := holds.step gAlmostEmptyThreshold gAlmostFullThreshold e
      exact ih steps.holds

/-- What the reader knows `n` of its edges after the last write. -/
structure ReaderSure (n : Nat) (s : AsyncFifo k α) (c : Counts) : Prop where
  knows : c.ReaderKnows n
  empty : 3 ≤ n → (s.emptyInt = true ↔ c.taken = c.written)

structure WriterSure (n : Nat) (s : AsyncFifo k α) (c : Counts) : Prop where
  knows : c.WriterKnows n
  full : 3 ≤ n → (s.fullInt = true ↔ c.written = c.taken + 2 ^ k)

theorem readerSure_zero (s : AsyncFifo k α) (c : Counts) : ReaderSure 0 s c :=
  ⟨⟨fun late => by omega, fun late => by omega⟩, fun late => by omega⟩

theorem writerSure_zero (s : AsyncFifo k α) (c : Counts) : WriterSure 0 s c :=
  ⟨⟨fun late => by omega, fun late => by omega⟩, fun late => by omega⟩

theorem ReaderSure.step {n : Nat} {c' : Counts} (sure : ReaderSure n s c)
    (steps : Steps gAlmostEmptyThreshold gAlmostFullThreshold s e c c') (quiet : s.written e = []) :
    ReaderSure (n + e.clkRd.toNat) (s.step gAlmostEmptyThreshold gAlmostFullThreshold e) c' := by
  have rests : (e.clkWr && s.weInt e) = false := by
    by_contra writes
    simp [written, Bool.eq_true_of_not_eq_false writes] at quiet
  have same : c'.written = c.written := by
    have moved := steps.moves.written
    rwa [show ((s.turn e).writer && (s.turn e).writes) = false from rests, Bool.toNat_false, Nat.add_zero] at moved
  refine ⟨sure.knows.moves steps.moves rests, fun late => ?_⟩
  cases edge : e.clkRd with
  | true =>
      rw [edge, Bool.toNat_true] at late
      rw [steps.empty edge, same, sure.knows.seen (by omega)]
  | false =>
      have taken : c'.taken = c.taken := by
        have moved := steps.moves.taken
        rwa [show ((s.turn e).reader && (s.turn e).takes) = false by simp [turn, edge], Bool.toNat_false,
          Nat.add_zero] at moved
      rw [edge, Bool.toNat_false, Nat.add_zero] at late
      rw [taken, same, ← sure.empty late]
      simp [AsyncFifo.step, edge]

theorem WriterSure.step {n : Nat} {c' : Counts} (sure : WriterSure n s c)
    (steps : Steps gAlmostEmptyThreshold gAlmostFullThreshold s e c c')
    (quiet : s.taken gAlmostEmptyThreshold gAlmostFullThreshold e = []) :
    WriterSure (n + e.clkWr.toNat) (s.step gAlmostEmptyThreshold gAlmostFullThreshold e) c' := by
  have rests : (e.clkRd && s.rdInt e) = false := by
    by_contra takes
    simp [taken, Bool.eq_true_of_not_eq_false takes] at quiet
  have same : c'.taken = c.taken := by
    have moved := steps.moves.taken
    rwa [show ((s.turn e).reader && (s.turn e).takes) = false from rests, Bool.toNat_false, Nat.add_zero] at moved
  refine ⟨sure.knows.moves steps.moves rests, fun late => ?_⟩
  cases edge : e.clkWr with
  | true =>
      rw [edge, Bool.toNat_true] at late
      rw [steps.full edge, same, sure.knows.seen (by omega)]
  | false =>
      have written : c'.written = c.written := by
        have moved := steps.moves.written
        rwa [show ((s.turn e).writer && (s.turn e).writes) = false by simp [turn, edge], Bool.toNat_false,
          Nat.add_zero] at moved
      rw [edge, Bool.toNat_false, Nat.add_zero] at late
      rw [written, same, ← sure.full late]
      simp [AsyncFifo.step, edge]

theorem reader_run {n : Nat} {tail : List (AsyncEdge k α)} (holds : s.Holds c) (sure : ReaderSure n s c)
    (quiet : collect (step gAlmostEmptyThreshold gAlmostFullThreshold) written s tail = []) :
    ∃ c', (run (step gAlmostEmptyThreshold gAlmostFullThreshold) s tail).Holds c' ∧ ReaderSure
      (n + tail.countP (·.clkRd)) (run (step gAlmostEmptyThreshold gAlmostFullThreshold) s tail) c' := by
  induction tail generalizing s c n with
  | nil => exact ⟨c, holds, sure⟩
  | cons e rest ih =>
      obtain ⟨c', steps⟩ := holds.step gAlmostEmptyThreshold gAlmostFullThreshold e
      obtain ⟨here, later⟩ := List.append_eq_nil_iff.1 quiet
      have next := ih steps.holds (sure.step _ _ steps here) later
      rwa [Nat.add_assoc, Bool.toNat, cond_eq_ite, Nat.add_comm (ite _ _ _), ← List.countP_cons] at next

theorem writer_run {n : Nat} {tail : List (AsyncEdge k α)} (holds : s.Holds c) (sure : WriterSure n s c)
    (quiet : collect (step gAlmostEmptyThreshold gAlmostFullThreshold)
      (taken gAlmostEmptyThreshold gAlmostFullThreshold) s tail = []) :
    ∃ c', (run (step gAlmostEmptyThreshold gAlmostFullThreshold) s tail).Holds c' ∧ WriterSure
      (n + tail.countP (·.clkWr)) (run (step gAlmostEmptyThreshold gAlmostFullThreshold) s tail) c' := by
  induction tail generalizing s c n with
  | nil => exact ⟨c, holds, sure⟩
  | cons e rest ih =>
      obtain ⟨c', steps⟩ := holds.step gAlmostEmptyThreshold gAlmostFullThreshold e
      obtain ⟨here, later⟩ := List.append_eq_nil_iff.1 quiet
      have next := ih steps.holds (sure.step _ _ steps here) later
      rwa [Nat.add_assoc, Bool.toNat, cond_eq_ite, Nat.add_comm (ite _ _ _), ← List.countP_cons] at next

variable (mem : BitVec k → α) (qO : α) (wrCount rdCount : BitVec (k + 1))

/-- Whatever the order of the edges, each word that is written is read once and in its turn; the flags err on the safe
side. -/
theorem words_in_order (edges : List (AsyncEdge k α)) :
    let next := step gAlmostEmptyThreshold gAlmostFullThreshold
    let start := reset mem qO wrCount rdCount
    let s := run next start edges
    collect next written start edges =
        collect next (taken gAlmostEmptyThreshold gAlmostFullThreshold) start edges ++ s.stored ∧
      s.stored.length ≤ 2 ^ k ∧ (s.fullInt = false → s.stored.length < 2 ^ k) ∧
      (s.emptyInt = false → s.stored ≠ []) := by
  intro next start s
  have kept (s : AsyncFifo k α) (e : AsyncEdge k α) (inv : ∃ c, s.Holds c) (_ : True) : ∃ c, (next s e).Holds c := by
    obtain ⟨c, holds⟩ := inv
    obtain ⟨c', steps⟩ := holds.step gAlmostEmptyThreshold gAlmostFullThreshold e
    exact ⟨c', steps.holds⟩
  have runs : Along next (fun _ _ => True) start edges := along_of_forall (fun _ _ => trivial) start edges
  have conserved := runs.conserves (fun s => ∃ c, s.Holds c) stored written
    (taken gAlmostEmptyThreshold gAlmostFullThreshold) kept
    (fun s e inv _ => inv.choose_spec.balanced) ⟨Counts.zero, reset_holds mem qO wrCount rdCount⟩
  have nothing : start.stored = [] := by simp [start, stored, reset]
  rw [nothing, List.nil_append] at conserved
  obtain ⟨c, holds⟩ := run_holds gAlmostEmptyThreshold gAlmostFullThreshold (reset_holds mem qO wrCount rdCount) edges
  obtain ⟨seenTaken, newTaken, taken, seen, new, room⟩ := holds.ordered
  have length : s.stored.length = c.written - c.taken := holds.stored_length
  refine ⟨conserved, by omega, fun open' => ?_, fun some' none => ?_⟩
  · have more := holds.full open'
    omega
  · have more := holds.empty some'
    rw [none, List.length_nil] at length
    omega

/-- Three edges of its clock after the last write the reader's flag is exact, and so is the writer's three edges after
the last read. -/
theorem flags_exact (before tail : List (AsyncEdge k α)) :
    let next := step gAlmostEmptyThreshold gAlmostFullThreshold
    let s := run next (reset mem qO wrCount rdCount) before
    let t := run next s tail
    (collect next written s tail = [] → 3 ≤ tail.countP (·.clkRd) → (t.emptyInt = true ↔ t.stored = [])) ∧
      (collect next (taken gAlmostEmptyThreshold gAlmostFullThreshold) s tail = [] → 3 ≤ tail.countP (·.clkWr) →
        (t.fullInt = true ↔ t.stored.length = 2 ^ k)) := by
  intro next s t
  obtain ⟨c, holds⟩ := run_holds gAlmostEmptyThreshold gAlmostFullThreshold (reset_holds mem qO wrCount rdCount) before
  constructor <;> intro quiet edges
  · obtain ⟨c', holds', sure⟩ := reader_run _ _ holds (readerSure_zero s c) quiet
    have below := holds'.ordered.stored.1
    have length : t.stored.length = c'.written - c'.taken := holds'.stored_length
    have told : t.emptyInt = true ↔ c'.taken = c'.written := sure.empty (by omega)
    rw [← List.length_eq_zero_iff, length, told]
    omega
  · obtain ⟨c', holds', sure⟩ := writer_run _ _ holds (writerSure_zero s c) quiet
    have below := holds'.ordered.stored.1
    have positive := Nat.two_pow_pos k
    have length : t.stored.length = c'.written - c'.taken := holds'.stored_length
    have told : t.fullInt = true ↔ c'.written = c'.taken + 2 ^ k := sure.full (by omega)
    rw [length, told]
    omega

/-- Two words fill the smallest FIFO; three edges of both clocks later both flags know. -/
theorem flags_exact_two :
    let write (d : Nat) : AsyncEdge 1 Nat := ⟨true, false, d, true, false, 0, 0⟩
    let rest : AsyncEdge 1 Nat := ⟨true, true, 0, false, false, 3, 3⟩
    let next := step 0 2
    let s := run next (reset (fun _ => 0) 0 0 0) [write 5, write 7]
    let t := run next s [rest, rest, rest]
    t.stored = [5, 7] ∧ (t.emptyInt = true ↔ t.stored = []) ∧ (t.fullInt = true ↔ t.stored.length = 2) := by
  intro write rest next s t
  have exact' := flags_exact 0 2 (fun _ => 0) 0 0 0 [write 5, write 7] [rest, rest, rest]
  exact ⟨by decide, exact'.1 (by decide) (by decide), exact'.2 (by decide) (by decide)⟩

end Runs

end AsyncFifo

end WrCores.Genrams
