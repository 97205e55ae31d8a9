import Mathlib.Tactic
import WrCores.Clocked.Grants
import WrCores.Clocked.Stream

/-!
xwb_crossbar.vhd with `m` masters and `n` slaves. The slave behind the last one is the error device, which the requests
go to that no slave has the address of. `matrix_old` is the connection matrix, one row for each master; a crossbar that
is registered uses it as it is, the other one uses what comes next.
-/

namespace WrCores.Wishbone

open Clocked Relator

/-- `t_wishbone_master_out`, which is `t_wishbone_slave_in` too. -/
structure MasterOut where
  cyc : Bool
  stb : Bool
  adr : BitVec 32
  sel : BitVec 4
  we : Bool
  dat : BitVec 32
  deriving DecidableEq

/-- `t_wishbone_slave_out`, which is `t_wishbone_master_in` too. -/
structure SlaveOut where
  ack : Bool
  err : Bool
  rty : Bool
  stall : Bool
  int : Bool
  dat : BitVec 32
  deriving DecidableEq

namespace Crossbar

variable {m n : Nat}

/-- The assertions of `f_ranges_ok`. -/
def FRangesOk (cAddress cMask : Fin n → BitVec 32) : Prop :=
  (∀ i j, i < j → ¬ (cMask i &&& cMask j) &&& (cAddress i ^^^ cAddress j) = 0 ∨
    cMask i ||| ~~~cAddress i = 0 ∨ cMask j ||| ~~~cAddress j = 0) ∧
  ∀ i, (cAddress i &&& ~~~cMask i = 0 ∨ ~~~cAddress i ||| cMask i = 0) ∧ (cMask i).extractLsb' 0 2 = 0

instance (cAddress cMask : Fin n → BitVec 32) : Decidable (FRangesOk cAddress cMask) :=
  inferInstanceAs (Decidable (_ ∧ _))

/-- The generics; without `f_ranges_ok` nothing is built. -/
structure Generics (n : Nat) where
  registered : Bool
  cAddress : Fin n → BitVec 32
  cMask : Fin n → BitVec 32
  ok : FRangesOk cAddress cMask

abbrev Matrix (m n : Nat) := Fin m → Fin (n + 1) → Bool

/-! ### The networks of gates -/

def vectorOr (x : List Bool) : Bool := go x.length x where
  go : Nat → List Bool → Bool
  | 0, y => y.headD false
  | fuel + 1, y =>
      if y.length = 1 then y.headD false
      else go fuel (y.drop (y.length / 2)) || go fuel (y.take (y.length / 2))

/-- `vector_OR` of a row or a column. -/
def rowOr (x : Fin m → Bool) : Bool := vectorOr (List.ofFn x)

/-- `slave_matrix_OR` and `master_matrix_OR`. -/
def matrixOr {w : Nat} (x : Fin w → Fin m → Bool) : BitVec w :=
  (BitVec.ofBoolListLE (List.ofFn fun bit => rowOr (x bit))).cast List.length_ofFn

def log2 (i : Nat) : Nat := go i i where
  go : Nat → Nat → Nat
  | 0, _ => 0
  | fuel + 1, i => if i ≤ 1 then 0 else go fuel ((i + 1) / 2) + 1

def pow2 : Nat → Nat
  | 0 => 1
  | i + 1 => pow2 i * 2

/-- `ks_OR`, a stage for each power of two. -/
def ksOr (width : Nat) (input : Nat → Bool) : Nat → Bool :=
  (List.range (log2 width)).foldl (fun prev l i => if pow2 l ≤ i then prev i || prev (i - pow2 l) else prev i) input

/-! ### The connection matrix -/

variable (g : Generics n)

/-- `tmp_column`: the slave has the address. -/
def addressed (adr : BitVec 32) (slave : Fin n) : Bool :=
  let differs := adr &&& g.cMask slave ^^^ g.cAddress slave
  !rowOr fun bit : Fin 32 => differs.getLsbD bit

/-- Where an address leads to. -/
def aims (adr : BitVec 32) (slave : Fin (n + 1)) : Bool :=
  if h : slave.val < n then addressed g adr ⟨slave, h⟩
  else !rowOr fun s : Fin (n + 1) => if h : s.val < n then addressed g adr ⟨s, h⟩ else false

def request (slaveI : Fin m → MasterOut) : Matrix m n := fun master slave =>
  (slaveI master).cyc && (slaveI master).stb && aims g (slaveI master).adr slave

def selected (slaveI : Fin m → MasterOut) : Matrix m n := fun master slave =>
  let tmpRow := ksOr m fun k => if h : k < m then request g slaveI ⟨k, h⟩ slave else false
  if master.val = 0 then request g slaveI master slave
  else !tmpRow (master.val - 1) && request g slaveI master slave

def sbusy (matrixOld : Matrix m n) (slaveI : Fin m → MasterOut) (slave : Fin (n + 1)) : Bool :=
  rowOr fun master => matrixOld master slave && (slaveI master).cyc

def mbusy (matrixOld : Matrix m n) (slaveI : Fin m → MasterOut) (master : Fin m) : Bool :=
  rowOr (matrixOld master) && (slaveI master).cyc

def matrixLogic (matrixOld : Matrix m n) (slaveI : Fin m → MasterOut) : Matrix m n := fun master slave =>
  if sbusy matrixOld slaveI slave || mbusy matrixOld slaveI master then matrixOld master slave
  else selected g slaveI master slave

/-! ### The connections -/

def slaveLogic (granted : Matrix m n) (slaveI : Fin m → MasterOut) (slave : Fin (n + 1)) : MasterOut where
  cyc := rowOr fun master => (slaveI master).cyc && granted master slave
  stb := rowOr fun master => (slaveI master).stb && granted master slave
  adr := matrixOr fun bit master => (slaveI master).adr.getLsbD bit && granted master slave
  sel := matrixOr fun bit master => (slaveI master).sel.getLsbD bit && granted master slave
  we := rowOr fun master => (slaveI master).we && granted master slave
  dat := matrixOr fun bit master => (slaveI master).dat.getLsbD bit && granted master slave

def masterLogic (granted : Matrix m n) (masterIe : Fin (n + 1) → SlaveOut) (master : Fin m) : SlaveOut where
  ack := rowOr fun slave => (masterIe slave).ack && granted master slave
  err := rowOr fun slave => (masterIe slave).err && granted master slave
  rty := rowOr fun slave => (masterIe slave).rty && granted master slave
  stall := !rowOr fun slave => !(masterIe slave).stall && granted master slave
  int := false
  dat := matrixOr fun bit slave => (masterIe slave).dat.getLsbD bit && granted master slave

structure Inputs (m n : Nat) where
  rstN : Bool
  slaveI : Fin m → MasterOut
  masterI : Fin n → SlaveOut

structure State (m n : Nat) where
  matrixOld : Matrix m n
  virtualErr : Bool

def matrixNew (s : State m n) (i : Inputs m n) : Matrix m n := matrixLogic g s.matrixOld i.slaveI

def granted (s : State m n) (i : Inputs m n) : Matrix m n := if g.registered then s.matrixOld else matrixNew g s i

def masterOe (s : State m n) (i : Inputs m n) (slave : Fin (n + 1)) : MasterOut :=
  slaveLogic (granted g s i) i.slaveI slave

def masterIe (s : State m n) (i : Inputs m n) (slave : Fin (n + 1)) : SlaveOut :=
  if h : slave.val < n then i.masterI ⟨slave, h⟩ else ⟨false, s.virtualErr, false, false, false, 0⟩

def slaveO (s : State m n) (i : Inputs m n) (master : Fin m) : SlaveOut :=
  masterLogic (granted g s i) (masterIe s i) master

def step (s : State m n) (i : Inputs m n) : State m n where
  matrixOld := if i.rstN then matrixNew g s i else fun _ _ => false
  virtualErr := (masterOe g s i (Fin.last n)).cyc && (masterOe g s i (Fin.last n)).stb

/-- After a reset; the register of the error device has none. -/
def reset (virtualErr : Bool) : State m n := ⟨fun _ _ => false, virtualErr⟩

/-! ### What the gates compute -/

theorem vectorOr_go (fuel : Nat) (y : List Bool) (enough : y.length ≤ fuel + 1) : vectorOr.go fuel y = y.any id := by
  induction fuel generalizing y with
  | zero =>
      match y, enough with
      | [], _ => rfl
      | [b], _ => simp [vectorOr.go]
  | succ fuel ih =>
      rw [vectorOr.go]
      split
      next one =>
        obtain ⟨b, rfl⟩ := List.length_eq_one_iff.mp one
        simp
      next more =>
        rw [ih _ (by rw [List.length_drop]; omega), ih _ (by rw [List.length_take]; omega), Bool.or_comm,
          ← List.any_append, List.take_append_drop]

theorem rowOr_iff (x : Fin m → Bool) : rowOr x = true ↔ ∃ i, x i = true := by
  rw [rowOr, vectorOr, vectorOr_go _ _ (Nat.le_succ _), List.any_eq_true]
  simp [List.mem_ofFn]

theorem rowOr_false (x : Fin m → Bool) : rowOr x = false ↔ ∀ i, x i = false := by
  rw [← Bool.not_eq_true, rowOr_iff]
  simp

/-- One position alone decides. -/
theorem rowOr_only (x : Fin m → Bool) (i : Fin m) (only : ∀ k, k ≠ i → x k = false) : rowOr x = x i := by
  rw [Bool.eq_iff_iff, rowOr_iff]
  refine ⟨fun ⟨k, set⟩ => ?_, fun set => ⟨i, set⟩⟩
  by_cases same : k = i
  · exact same ▸ set
  · exact absurd set (by simp [only k same])

theorem matrixOr_bit {w : Nat} (x : Fin w → Fin m → Bool) (bit : Fin w) :
    (matrixOr x).getLsbD bit = rowOr (x bit) := by
  rw [matrixOr, BitVec.getLsbD_cast, BitVec.getLsbD_ofBoolListLE]
  simp [List.getD]

theorem matrixOr_only {w : Nat} (x : Fin w → Fin m → Bool) (v : BitVec w) (i : Fin m)
    (here : ∀ bit, x bit i = v.getLsbD bit) (only : ∀ bit k, k ≠ i → x bit k = false) : matrixOr x = v := by
  apply BitVec.eq_of_getLsbD_eq
  intro bit inside
  rw [matrixOr_bit x ⟨bit, inside⟩, rowOr_only _ i (only _), here]

theorem matrixOr_none {w : Nat} (x : Fin w → Fin m → Bool) (none : ∀ bit k, x bit k = false) : matrixOr x = 0 := by
  apply BitVec.eq_of_getLsbD_eq
  intro bit inside
  rw [matrixOr_bit x ⟨bit, inside⟩, (rowOr_false _).mpr (none _)]
  simp

theorem pow2_eq (l : Nat) : pow2 l = 2 ^ l := by
  induction l with
  | zero => rfl
  | succ l ih => rw [pow2, ih, pow_succ]

theorem log2_go (fuel i : Nat) (enough : i ≤ fuel) : i ≤ 2 ^ log2.go fuel i := by
  induction fuel generalizing i with
  | zero => simp [Nat.le_zero.mp enough]
  | succ fuel ih =>
      rw [log2.go]
      split
      · simpa using ‹i ≤ 1›
      · have half := ih ((i + 1) / 2) (by omega)
        rw [pow_succ]
        omega

/-- After some stages an output looks back as far as a power of two. -/
theorem stages_iff (input : Nat → Bool) (stages i : Nat) :
    (List.range stages).foldl (fun prev l i => if pow2 l ≤ i then prev i || prev (i - pow2 l) else prev i) input i
      = true ↔ ∃ j ≤ i, i < j + 2 ^ stages ∧ input j = true := by
  induction stages generalizing i with
  | zero =>
      rw [List.range_zero, List.foldl_nil]
      refine ⟨fun set => ⟨i, le_rfl, by omega, set⟩, fun ⟨j, before, near, set⟩ => ?_⟩
      rw [pow_zero] at near
      rwa [show i = j by omega]
  | succ l ih =>
      have positive := Nat.two_pow_pos l
      rw [List.range_succ, List.foldl_append, List.foldl_cons, List.foldl_nil, pow2_eq, pow_succ]
      split
      next far =>
        rw [Bool.or_eq_true, ih, ih]
        constructor
        · rintro (⟨j, before, near, set⟩ | ⟨j, before, near, set⟩)
          · exact ⟨j, before, by omega, set⟩
          · exact ⟨j, by omega, by omega, set⟩
        · rintro ⟨j, before, near, set⟩
          by_cases close : i < j + 2 ^ l
          · exact .inl ⟨j, before, close, set⟩
          · exact .inr ⟨j, by omega, by omega, set⟩
      next low =>
        rw [ih]
        exact ⟨fun ⟨j, before, near, set⟩ => ⟨j, before, by omega, set⟩,
          fun ⟨j, before, near, set⟩ => ⟨j, before, by omega, set⟩⟩

/-- `output(i) = OR_{j<=i} input(j)`. -/
theorem ksOr_iff (width : Nat) (input : Nat → Bool) {i : Nat} (inside : i < width) :
    ksOr width input i = true ↔ ∃ j ≤ i, input j = true := by
  have wide : width ≤ 2 ^ log2 width := log2_go width width le_rfl
  rw [ksOr, stages_iff]
  exact ⟨fun ⟨j, before, _, set⟩ => ⟨j, before, set⟩, fun ⟨j, before, set⟩ => ⟨j, before, by omega, set⟩⟩

/-! ### Decoding and arbitration -/

variable {g}

theorem addressed_iff {adr : BitVec 32} {slave : Fin n} :
    addressed g adr slave = true ↔ adr &&& g.cMask slave = g.cAddress slave := by
  rw [addressed, Bool.not_eq_true', rowOr_false]
  constructor
  · intro none
    apply BitVec.eq_of_getLsbD_eq
    intro bit inside
    have same := none ⟨bit, inside⟩
    rw [BitVec.getLsbD_xor] at same
    simpa using same
  · intro same bit
    rw [same, BitVec.xor_self]
    simp

/-- A slave that is told to be disconnected has no address. -/
theorem not_disconnected {adr mask address : BitVec 32} (hit : adr &&& mask = address) :
    mask ||| ~~~address ≠ 0 := by
  intro zero
  have bit : (mask ||| ~~~(adr &&& mask)).getLsbD 0 = false := by
    rw [hit, zero]
    rfl
  simp only [BitVec.getLsbD_or, BitVec.getLsbD_not, BitVec.getLsbD_and] at bit
  revert bit
  cases adr.getLsbD 0 <;> cases mask.getLsbD 0 <;> decide

/-- `f_ranges_ok`: no address belongs to two slaves. -/
theorem addressed_unique {adr : BitVec 32} {a b : Fin n} (one : addressed g adr a = true)
    (other : addressed g adr b = true) : a = b := by
  rw [addressed_iff] at one other
  have apart : ∀ i j : Fin n, i < j → adr &&& g.cMask i = g.cAddress i → adr &&& g.cMask j = g.cAddress j → False := by
    intro i j before here there
    rcases g.ok.1 i j before with distinct | off | off
    · refine distinct ?_
      rw [← here, ← there]
      apply BitVec.eq_of_getLsbD_eq
      intro bit _
      simp only [BitVec.getLsbD_and, BitVec.getLsbD_xor]
      cases adr.getLsbD bit <;> cases (g.cMask i).getLsbD bit <;> cases (g.cMask j).getLsbD bit <;> simp
    · exact not_disconnected here off
    · exact not_disconnected there off
  rcases lt_trichotomy a b with before | same | behind
  · exact (apart a b before one other).elim
  · exact same
  · exact (apart b a behind other one).elim

theorem aims_slave {adr : BitVec 32} (slave : Fin n) : aims g adr slave.castSucc = addressed g adr slave := by
  rw [aims, dif_pos (by simp)]
  rfl

theorem aims_error {adr : BitVec 32} : aims g adr (Fin.last n) = true ↔ ∀ slave, addressed g adr slave = false := by
  rw [aims, dif_neg (by simp), Bool.not_eq_true', rowOr_false]
  constructor
  · intro none slave
    have here := none slave.castSucc
    rwa [dif_pos (by simp)] at here
  · intro none s
    split
    · exact none _
    · rfl

/-- Every address leads to one place. -/
theorem aims_unique {adr : BitVec 32} {a b : Fin (n + 1)} (one : aims g adr a = true) (other : aims g adr b = true) :
    a = b := by
  induction a using Fin.lastCases with
  | last =>
      induction b using Fin.lastCases with
      | last => rfl
      | cast b =>
          rw [aims_slave, aims_error.mp one b] at other
          cases other
  | cast a =>
      rw [aims_slave] at one
      induction b using Fin.lastCases with
      | last =>
          rw [aims_error.mp other a] at one
          cases one
      | cast b =>
          rw [aims_slave] at other
          rw [addressed_unique one other]

theorem request_iff {slaveI : Fin m → MasterOut} {a : Fin m} {b : Fin (n + 1)} : request g slaveI a b = true ↔
    (slaveI a).cyc = true ∧ (slaveI a).stb = true ∧ aims g (slaveI a).adr b = true := by
  rw [request, Bool.and_eq_true, Bool.and_eq_true, and_assoc]

/-- The lowest numbered master first. -/
theorem selected_iff {slaveI : Fin m → MasterOut} {a : Fin m} {b : Fin (n + 1)} : selected g slaveI a b = true ↔
    request g slaveI a b = true ∧ ∀ a' < a, request g slaveI a' b = false := by
  rw [selected]
  split
  next first =>
    exact ⟨fun asks => ⟨asks, fun a' before => absurd before (by rw [Fin.lt_def]; omega)⟩, And.left⟩
  next more =>
    have bound := a.isLt
    rw [Bool.and_eq_true, Bool.not_eq_true', ← Bool.not_eq_true, ksOr_iff _ _ (by omega), and_comm]
    refine and_congr_right fun _ => ⟨fun none a' before => ?_, fun none => ?_⟩
    · rw [← Bool.not_eq_true]
      intro asks
      rw [Fin.lt_def] at before
      exact none ⟨a', by omega, by rw [dif_pos a'.isLt]; exact asks⟩
    · rintro ⟨j, before, asks⟩
      rw [dif_pos (by omega), none ⟨j, by omega⟩ (by rw [Fin.lt_def]; simp only; omega)] at asks
      cases asks

theorem selected_biUnique (slaveI : Fin m → MasterOut) : BiUnique fun a b => selected g slaveI a b = true := by
  constructor
  · intro a a' b one other
    rw [selected_iff] at one other
    rcases lt_trichotomy a a' with before | same | behind
    · rw [other.2 a before] at one
      cases one.1
    · exact same
    · rw [one.2 a' behind] at other
      cases other.1
  · intro a b b' one other
    exact aims_unique (request_iff.mp (selected_iff.mp one).1).2.2 (request_iff.mp (selected_iff.mp other).1).2.2

theorem renewed (old : Matrix m n) (slaveI : Fin m → MasterOut) :
    Renewed (fun a b => old a b = true) (fun a b => selected g slaveI a b = true)
      (fun a b => matrixLogic g old slaveI a b = true) fun a => (slaveI a).cyc = true := by
  have busy : ∀ a b, Bound (fun a b => old a b = true) (fun a => (slaveI a).cyc = true) a b ↔
      (sbusy old slaveI b || mbusy old slaveI a) = true := by
    intro a b
    rw [Bool.or_eq_true, sbusy, rowOr_iff, mbusy, Bool.and_eq_true, rowOr_iff, Bound]
    simp only [Bool.and_eq_true]
    exact or_congr_right and_comm
  refine ⟨fun a b bound => ?_, fun a b free => ?_⟩
  · simp only [matrixLogic, if_pos ((busy a b).mp bound)]
  · simp only [matrixLogic, if_neg (mt (busy a b).mpr free)]

/-! ### Runs -/

/-- What holds of every state after a reset. -/
abbrev Matching (matrix : Matrix m n) : Prop := BiUnique fun a b => matrix a b = true

theorem matching_none : Matching fun (_ : Fin m) (_ : Fin (n + 1)) => false := ⟨nofun, nofun⟩

theorem matching_new {s : State m n} (unique : Matching s.matrixOld) (i : Inputs m n) : Matching (matrixNew g s i) :=
  (renewed s.matrixOld i.slaveI).biUnique unique (selected_biUnique i.slaveI)

theorem matching_step {s : State m n} (unique : Matching s.matrixOld) (i : Inputs m n) :
    Matching (step g s i).matrixOld := by
  rw [step]
  split
  · exact matching_new unique i
  · exact matching_none

theorem matching_run (err : Bool) (inputs : List (Inputs m n)) :
    Matching (run (step g) (reset err) inputs).matrixOld := by
  induction inputs using List.reverseRecOn with
  | nil => exact matching_none
  | append_singleton before i ih =>
      rw [run_append]
      exact matching_step ih i

theorem matching_granted {s : State m n} (unique : Matching s.matrixOld) (i : Inputs m n) :
    Matching (granted g s i) := by
  rw [granted]
  split
  · exact unique
  · exact matching_new unique i

/-- A connection is what its user and its slave see of each other. -/
theorem slaveLogic_granted {matrix : Matrix m n} (unique : Matching matrix) (slaveI : Fin m → MasterOut) {a : Fin m}
    {b : Fin (n + 1)} (connected : matrix a b = true) : slaveLogic matrix slaveI b = slaveI a := by
  have others : ∀ k, k ≠ a → matrix k b = false := by
    intro k other
    rw [← Bool.not_eq_true]
    exact fun there => other (unique.1 there connected)
  have off : ∀ (x : Fin m → Bool) k, k ≠ a → (x k && matrix k b) = false := fun x k other => by
    rw [others k other, Bool.and_false]
  rw [slaveLogic, rowOr_only _ a (off _), rowOr_only _ a (off _), rowOr_only _ a (off _),
    matrixOr_only _ (slaveI a).adr a (by simp [connected]) fun _ => off _,
    matrixOr_only _ (slaveI a).sel a (by simp [connected]) fun _ => off _,
    matrixOr_only _ (slaveI a).dat a (by simp [connected]) fun _ => off _]
  simp [connected]

theorem slaveLogic_free {matrix : Matrix m n} (slaveI : Fin m → MasterOut) {b : Fin (n + 1)}
    (free : ∀ a, matrix a b = false) : slaveLogic matrix slaveI b = ⟨false, false, 0, 0, false, 0⟩ := by
  have off : ∀ (x : Fin m → Bool) k, (x k && matrix k b) = false := fun x k => by rw [free k, Bool.and_false]
  rw [slaveLogic, (rowOr_false _).mpr (off _), (rowOr_false _).mpr (off _), (rowOr_false _).mpr (off _),
    matrixOr_none _ fun _ => off _, matrixOr_none _ fun _ => off _, matrixOr_none _ fun _ => off _]

theorem masterLogic_granted {matrix : Matrix m n} (unique : Matching matrix) (masterIe : Fin (n + 1) → SlaveOut)
    {a : Fin m} {b : Fin (n + 1)} (connected : matrix a b = true) :
    masterLogic matrix masterIe a = { masterIe b with int := false } := by
  have others : ∀ k, k ≠ b → matrix a k = false := by
    intro k other
    rw [← Bool.not_eq_true]
    exact fun there => other (unique.2 there connected)
  have off : ∀ (x : Fin (n + 1) → Bool) k, k ≠ b → (x k && matrix a k) = false := fun x k other => by
    rw [others k other, Bool.and_false]
  rw [masterLogic, rowOr_only _ b (off _), rowOr_only _ b (off _), rowOr_only _ b (off _), rowOr_only _ b (off _),
    matrixOr_only _ (masterIe b).dat b (by simp [connected]) fun _ => off _]
  simp [connected]

theorem masterLogic_free {matrix : Matrix m n} (masterIe : Fin (n + 1) → SlaveOut) {a : Fin m}
    (free : ∀ b, matrix a b = false) : masterLogic matrix masterIe a = ⟨false, false, false, true, false, 0⟩ := by
  have off : ∀ (x : Fin (n + 1) → Bool) k, (x k && matrix a k) = false := fun x k => by rw [free k, Bool.and_false]
  rw [masterLogic, (rowOr_false _).mpr (off _), (rowOr_false _).mpr (off _), (rowOr_false _).mpr (off _),
    (rowOr_false _).mpr (off _), matrixOr_none _ fun _ => off _]
  rfl

/-- In every state of every run a master has one slave at most and a slave one master, the two are wired to each other,
and who has none is kept still: the master is stalled and hears no answer, the slave sees no cycle. -/
theorem point_to_point (g : Generics n) (err : Bool) (inputs : List (Inputs m n)) (i : Inputs m n) :
    let s := run (step g) (reset err) inputs
    Matching (granted g s i) ∧
      (∀ a b, granted g s i a b = true →
        masterOe g s i b = i.slaveI a ∧ slaveO g s i a = { masterIe s i b with int := false }) ∧
      (∀ a, (∀ b, granted g s i a b = false) → slaveO g s i a = ⟨false, false, false, true, false, 0⟩) ∧
      ∀ b, (∀ a, granted g s i a b = false) → masterOe g s i b = ⟨false, false, 0, 0, false, 0⟩ := by
  intro s
  have unique : Matching (granted g s i) := matching_granted (matching_run err inputs) i
  refine ⟨unique, fun a b connected => ?_, fun a free => ?_, fun b free => ?_⟩
  · exact ⟨slaveLogic_granted unique _ connected, masterLogic_granted unique _ connected⟩
  · exact masterLogic_free _ free
  · exact slaveLogic_free _ free

end Crossbar

end WrCores.Wishbone
