import WrCores.Clocked.Machine
import WrCores.Network.Bitonic

/-!
eca_bitonic.vhd, eca_bitonic_helper.vhd and eca_bitonic_swap.vhd. The entities instantiate themselves, so each is a
recursion over `g_log_size`; the vectors have their numbers at `0 .. 2**g_log_size-1`.
-/

namespace WrCores.Eca.Bitonic

open Clocked Network

abbrev Nums (wide : Nat) := Nat → BitVec wide

variable {wide : Nat}

def sFlip (order : Bool) (a b : BitVec wide) : Bool := decide (b.toNat < a.toNat) == order

def aOut (order : Bool) (a b : BitVec wide) : BitVec wide := if sFlip order a b then b else a

def bOut (order : Bool) (a b : BitVec wide) : BitVec wide := if sFlip order a b then a else b

/-- `eca_bitonic_swap`, with `r_a` and `r_b` in its register. -/
def swap (wide : Nat) (order : Bool) : Machine (BitVec wide × BitVec wide) (BitVec wide × BitVec wide) :=
  .register (0, 0) fun r => (aOut order r.1 r.2, bOut order r.1 r.2)

/-- The swaps of the numbers that are `half` apart. -/
def swaps (wide : Nat) (order : Bool) (half : Nat) : Machine (Nums wide) (Nums wide × Nums wide) :=
  ((Machine.wires fun nums i => (nums i, nums (i + half))).seq (swap wide order).each).seq
    (.wires fun pairs => (fun i => (pairs i).1, fun i => (pairs i).2))

/-- `eca_bitonic_helper` with `g_log_size = n + 1`. -/
def helper (wide : Nat) (order : Bool) : Nat → Machine (Nums wide) (Nums wide)
  | 0 => (swaps wide order (2 ^ 0)).seq (.wires fun sub => join (2 ^ 0) sub.1 sub.2)
  | n + 1 => ((swaps wide order (2 ^ (n + 1))).seq ((helper wide order n).par (helper wide order n))).seq
      (.wires fun sub => join (2 ^ (n + 1)) sub.1 sub.2)

/-- `eca_bitonic`. -/
def bitonic (wide : Nat) : Nat → Bool → Machine (Nums wide) (Nums wide)
  | 0, _ => .wires id
  | 1, order => helper wide order 0
  | n + 2, order =>
      (((Machine.wires fun nums => (nums, fun i => nums (i + 2 ^ (n + 1)))).seq
        ((bitonic wide (n + 1) order).par (bitonic wide (n + 1) (!order)))).seq
        (.wires fun sub => join (2 ^ (n + 1)) sub.1 sub.2)).seq (helper wide order (n + 1))

/-- One edge for each layer of swaps. -/
def latency : Nat → Nat
  | 0 => 0
  | n + 1 => latency n + (n + 1)

theorem latency_eq (n : Nat) : latency n = n * (n + 1) / 2 := by
  have twice : 2 * latency n = n * (n + 1) := by
    induction n with
    | zero => rfl
    | succ n ih =>
        rw [latency, Nat.mul_add, ih]
        ring
  omega

/-! ### What the entities compute -/

theorem swaps_delivers (order : Bool) (half : Nat) : (swaps wide order half).Delivers
    (fun v => (fun i => aOut order (v i) (v (i + half)), fun i => bOut order (v i) (v (i + half)))) 1 :=
  (((Machine.wires_delivers _).seq (Machine.register_delivers _ _).each).seq (Machine.wires_delivers _)).congr
    (fun _ => rfl) rfl

theorem helper_delivers (order : Bool) (n : Nat) :
    (helper wide order n).Delivers (merge (aOut order) (bOut order) (n + 1)) (n + 1) := by
  induction n with
  | zero => exact ((swaps_delivers order _).seq (Machine.wires_delivers _)).congr (fun _ => rfl) rfl
  | succ n ih =>
      exact (((swaps_delivers order _).seq (ih.par ih)).seq (Machine.wires_delivers _)).congr (fun _ => rfl)
        (by omega)

/-- The other order gives the same two numbers the other way round. -/
theorem out_not (order : Bool) (a b : BitVec wide) : aOut (!order) a b = bOut order a b ∧ bOut (!order) a b =
    aOut order a b := by
  cases order <;> by_cases less : b.toNat < a.toNat <;> simp [aOut, bOut, sFlip, less]

theorem bitonic_delivers (n : Nat) (order : Bool) :
    (bitonic wide n order).Delivers (sort (aOut order) (bOut order) n) (latency n) := by
  induction n generalizing order with
  | zero => exact Machine.wires_delivers _
  | succ n ih =>
      cases n with
      | zero =>
          have same (v : Nums wide) : sort (aOut order) (bOut order) 1 v = merge (aOut order) (bOut order) 1 v := by
            rw [sort, sort, sort, join_split]
          exact (helper_delivers order 0).congr (fun v => (same v).symm) rfl
      | succ n =>
          have left : (aOut (!order) : BitVec wide → BitVec wide → BitVec wide) = bOut order :=
            funext fun a => funext fun b => (out_not order a b).1
          have right : (bOut (!order) : BitVec wide → BitVec wide → BitVec wide) = aOut order :=
            funext fun a => funext fun b => (out_not order a b).2
          have second := ih (!order)
          rw [left, right] at second
          exact ((((Machine.wires_delivers _).seq ((ih order).par second)).seq (Machine.wires_delivers _)).seq
            (helper_delivers order (n + 1))).congr (fun _ => rfl) (by simp only [latency]; omega)

theorem helper_holds (order : Bool) (n : Nat) : (helper wide order n).Holds := by
  have layer (half : Nat) : (swaps wide order half).Holds :=
    ((Machine.wires_holds _).seq (Machine.register_holds _ _).each).seq (Machine.wires_holds _)
  induction n with
  | zero => exact (layer _).seq (Machine.wires_holds _)
  | succ n ih => exact ((layer _).seq (ih.par ih)).seq (Machine.wires_holds _)

theorem bitonic_holds (n : Nat) (order : Bool) : (bitonic wide n order).Holds := by
  induction n generalizing order with
  | zero => exact Machine.wires_holds _
  | succ n ih =>
      cases n with
      | zero => exact helper_holds order 0
      | succ n =>
          exact (((Machine.wires_holds _).seq ((ih order).par (ih !order))).seq (Machine.wires_holds _)).seq
            (helper_holds order (n + 1))

/-! ### Sorting -/

theorem outs_swap (order : Bool) : Swaps (aOut order : BitVec wide → BitVec wide → BitVec wide) (bOut order) := by
  intro a b
  rw [aOut, bOut]
  split
  · exact .inr ⟨rfl, rfl⟩
  · exact .inl ⟨rfl, rfl⟩

/-- `a` comes before `b`, or may. -/
def Before (order : Bool) (a b : BitVec wide) : Prop := if order then a.toNat ≤ b.toNat else b.toNat ≤ a.toNat

instance (order : Bool) (a b : BitVec wide) : Decidable (Before order a b) :=
  inferInstanceAs (Decidable (if order then a.toNat ≤ b.toNat else b.toNat ≤ a.toNat))

theorem outs_test (order : Bool) (t : BitVec wide) : Test (aOut order) (bOut order) fun v => decide
    (Before order t v) := by
  constructor <;> intro a b <;> cases order <;> by_cases less : b.toNat < a.toNat <;>
    simp [aOut, bOut, sFlip, Before, less] <;> omega

theorem bitonic_sorts (n : Nat) (order : Bool) (s : (bitonic wide n order).State)
    (edges : List (Bool × Nums wide)) (now nums : Nums wide)
    (applied : (Machine.taken edges now)[n * (n + 1) / 2]? = some nums) :
    let out := (bitonic wide n order).out (run (bitonic wide n order).edge s edges) now
    (column out (2 ^ n)).Perm (column nums (2 ^ n)) ∧ ∀ i j, i ≤ j → j < 2 ^ n → Before order (out i) (out j) := by
  rw [← latency_eq] at applied
  rw [(bitonic_delivers n order).run (bitonic_holds n order) s edges applied]
  refine ⟨sort_perm (outs_swap order) n nums, fun i j le inside => ?_⟩
  have rising := sort_rising (outs_test order (sort (aOut order) (bOut order) n nums i)) n nums i j le inside
  refine of_decide_eq_true (rising (decide_eq_true ?_))
  cases order <;> exact le_rfl

theorem bitonic_sorts_pair :
    let out := (bitonic 2 1 false).out (run (bitonic 2 1 false).edge (bitonic 2 1 false).reset
      [(true, fun i => BitVec.ofNat 2 i), (false, fun _ => 3)]) fun _ => 0
    (column out (2 ^ 1)).Perm (column (fun i => BitVec.ofNat 2 i) (2 ^ 1)) ∧
      ∀ i j, i ≤ j → j < 2 ^ 1 → Before false (out i) (out j) :=
  bitonic_sorts 1 false (bitonic 2 1 false).reset [(true, fun i => BitVec.ofNat 2 i), (false, fun _ => 3)]
    (fun _ => 0)
    (fun i => BitVec.ofNat 2 i) rfl

end WrCores.Eca.Bitonic
