import WrCores.Clocked.Machine
import WrCores.Eca.PrefixXor
import WrCores.Network.Compact

/-!
eca_compact.vhd. The entity instantiates itself with a doubled `g_step`; each instance has its registers. The holes are
counted by their parities: `prefix_xor` has the parity of the holes up to a column, and the holes where the count becomes
even are those that the next instance counts.
-/

namespace WrCores.Eca.Compact

open Clocked Network

variable {wide : Nat}

/-- The ports of an instance; `holes` are not used by the first one. -/
structure Lane (wide : Nat) where
  holes : Nat → Bool
  valid : Nat → Bool
  data : Nat → BitVec wide

structure Regs (wide : Nat) where
  rValid : Nat → Bool
  rXorHoles : Nat → Bool
  rEvenHoles : Nat → Bool
  rData : Nat → BitVec wide

def sHoles (step : Nat) (i : Lane wide) : Nat → Bool := if step = 1 then fun k => !i.valid k else i.holes

def load (size step : Nat) (i : Lane wide) : Regs wide where
  rValid := i.valid
  rXorHoles := prefixXor size (sHoles step i)
  rEvenHoles k := !prefixXor size (sHoles step i) k && sHoles step i k
  rData := i.data

/-- `muxes` and `cuts`, with what the next instance gets. -/
def Regs.lane (size step : Nat) (r : Regs wide) : Lane wide where
  holes := r.rEvenHoles
  valid k := if k < size - step then (if r.rXorHoles (k + step - 1) then r.rValid (k + step) else r.rValid k)
    else r.rValid k && !r.rXorHoles (size - 1)
  data k := if k < size - step then (if r.rXorHoles (k + step - 1) then r.rData (k + step) else r.rData k)
    else r.rData k

/-- One instance without the next one. There is no enable. -/
def stage (size wide step : Nat) : Machine (Lane wide) (Lane wide) where
  State := Regs wide
  reset := ⟨fun _ => false, fun _ => false, fun _ => false, fun _ => 0⟩
  step _ _ i := load size step i
  out r _ := r.lane size step

/-- `eca_compact`; the steps double, so there are fewer instances than columns. -/
def compact (size wide : Nat) : Nat → Nat → Machine (Lane wide) (Lane wide)
  | 0, _ => .wires id
  | fuel + 1, step =>
      if size ≤ step then .wires id
      else if size ≤ step + step then stage size wide step
      else (stage size wide step).seq (compact size wide fuel (step + step))

def ecaCompact (size wide : Nat) : Machine (Lane wide) (Lane wide) := compact size wide size 1

/-! ### What the instances compute -/

def pass (size r : Nat) (i : Lane wide) : Lane wide := (load size (2 ^ r) i).lane size (2 ^ r)

/-- `n` instances from the one with step `2 ^ r` on. -/
def passes (size : Nat) : Nat → Nat → Lane wide → Lane wide
  | _, 0, i => i
  | r, n + 1, i => passes size (r + 1) n (pass size r i)

theorem stage_delivers (size r : Nat) : (stage size wide (2 ^ r)).Delivers (pass size r) 1 := fun _ _ _ => rfl

theorem compact_delivers (size fuel r : Nat) (enough : fEcaLog2 size ≤ r + fuel) :
    (compact size wide fuel (2 ^ r)).Delivers (passes size r (fEcaLog2 size - r)) (fEcaLog2 size - r) := by
  have double : 2 ^ r + 2 ^ r = 2 ^ (r + 1) := by rw [pow_succ]; omega
  induction fuel generalizing r with
  | zero =>
      rw [show fEcaLog2 size - r = 0 by omega]
      exact Machine.wires_delivers _
  | succ fuel ih =>
      rw [compact]
      split
      next none =>
        rw [← log2_le] at none
        rw [show fEcaLog2 size - r = 0 by omega]
        exact Machine.wires_delivers _
      next some =>
        rw [← log2_le] at some
        split
        next last =>
          rw [double, ← log2_le] at last
          rw [show fEcaLog2 size - r = 0 + 1 by omega]
          exact stage_delivers size r
        next more =>
          rw [double]
          have behind := ih (r + 1) (by omega) (by rw [pow_succ _ (r + 1)]; omega)
          exact ((stage_delivers size r).seq behind).congr
            (fun i => by rw [show fEcaLog2 size - r = fEcaLog2 size - (r + 1) + 1 by omega, passes]) (by omega)

/-! ### The lines of the network -/

/-- The holes among the first `n` columns. -/
def gaps (valid : Nat → Bool) (n : Nat) : Nat := Nat.count (fun k => valid k = false) n

/-- The column is one of the holes that instance `r` counts. -/
def counted (valid : Nat → Bool) (r q : Nat) : Bool := decide (gaps valid q / 2 ^ r < gaps valid (q + 1) / 2 ^ r)

section Lines

variable (valid : Nat → Bool) (r q : Nat)

theorem gaps_succ : gaps valid (q + 1) = gaps valid q + if valid q = false then 1 else 0 := Nat.count_succ _ _

theorem gaps_near : gaps valid (q + 1) / 2 ^ r = gaps valid q / 2 ^ r ∨
    gaps valid (q + 1) / 2 ^ r = gaps valid q / 2 ^ r + 1 := by
  rw [gaps_succ]
  split
  · rw [Nat.succ_div]
    split
    · exact .inr rfl
    · exact .inl rfl
  · exact .inl rfl

theorem counted_zero : counted valid 0 q = !valid q := by
  rw [counted, pow_zero, Nat.div_one, Nat.div_one, gaps_succ]
  cases valid q <;> simp

theorem parity_counted (n : Nat) : parity (counted valid r) n = (gaps valid n).testBit r := by
  induction n with
  | zero => simp [parity, gaps]
  | succ n ih =>
      rw [parity_succ, ih, counted, Nat.testBit_eq_decide_div_mod_eq, Nat.testBit_eq_decide_div_mod_eq]
      rcases gaps_near valid r n with same | more
      · rw [same, decide_eq_false (Nat.lt_irrefl _), Bool.xor_false]
      · rw [more, decide_eq_true (Nat.lt_succ_self _), Bool.xor_true, ← decide_not, decide_eq_decide]
        omega

/-- The counted holes where the count becomes even are those that the next instance counts. -/
theorem counted_succ : counted valid (r + 1) q = (!(gaps valid (q + 1)).testBit r && counted valid r q) := by
  rw [counted, counted, Nat.testBit_eq_decide_div_mod_eq, pow_succ, ← Nat.div_div_eq_div_mul,
    ← Nat.div_div_eq_div_mul, ← decide_not, ← Bool.decide_and, decide_eq_decide]
  have near := gaps_near valid r q
  omega

end Lines

def cell (i : Lane wide) (c : Nat) : Option (BitVec wide) := if i.valid c then some (i.data c) else none

/-- The line of layer `r` at a column is the bit of the number of holes up to it. -/
def lines (valid : Nat → Bool) (r q : Nat) : Bool := (gaps valid (q + 1)).testBit r

/-- The inputs of instance `r` for the inputs `i` of the network. -/
structure Reached (size : Nat) (i : Lane wide) (r : Nat) (lane : Lane wide) : Prop where
  cells : ∀ c < size, cell lane c = layers size (lines i.valid) (cell i) r c
  holes : ∀ q < size, sHoles (2 ^ r) lane q = counted i.valid r q

theorem reached_zero (size : Nat) (i : Lane wide) : Reached size i 0 i :=
  ⟨fun _ _ => rfl, fun q _ => by rw [counted_zero, sHoles, if_pos (pow_zero 2)]⟩

theorem parity_congr {x y : Nat → Bool} {n : Nat} (same : ∀ k < n, x k = y k) : parity x n = parity y n := by
  induction n with
  | zero => rfl
  | succ n ih => rw [parity_succ, parity_succ, ih fun k inside => same k (by omega), same n (by omega)]

/-- A column has its data or those of another one, and is valid as they are. -/
theorem cell_mux {α : Type*} (line v v' : Bool) (d d' : α) :
    (if (if line then v else v') then some (if line then d else d') else none) =
      if line then (if v then some d else none) else if v' then some d' else none := by
  cases line <;> rfl

theorem Reached.pass {size r : Nat} {i lane : Lane wide} (reached : Reached size i r lane) :
    Reached size i (r + 1) (pass size r lane) := by
  have positive : 0 < 2 ^ r := Nat.two_pow_pos r
  have xorHoles (q : Nat) (inside : q < size) : prefixXor size (sHoles (2 ^ r) lane) q = lines i.valid r q := by
    rw [prefixXor_eq size _ inside, parity_congr fun k below => reached.holes k (by omega), parity_counted, lines]
  constructor
  · intro c inside
    rw [layers, layer]
    by_cases low : c < size - 2 ^ r
    · rw [if_pos low, ← reached.cells _ (by omega), ← reached.cells c inside, ← xorHoles _ (by omega)]
      simp only [cell, Compact.pass, Regs.lane, load, if_pos low]
      exact cell_mux ..
    · rw [if_neg low, ← reached.cells c inside, ← xorHoles _ (by omega)]
      simp only [cell, Compact.pass, Regs.lane, load, if_neg low]
      cases prefixXor size (sHoles (2 ^ r) lane) (size - 1) <;> simp
  · intro q inside
    have later : 2 ^ (r + 1) ≠ 1 := by rw [pow_succ]; omega
    rw [counted_succ, ← reached.holes q inside, ← lines, ← xorHoles q inside, sHoles, if_neg later]
    rfl

theorem reached_passes {size : Nat} {i lane : Lane wide} (r n : Nat) (reached : Reached size i r lane) :
    Reached size i (r + n) (passes size r n lane) := by
  induction n generalizing r lane with
  | zero => exact reached
  | succ n ih =>
      rw [show r + (n + 1) = r + 1 + n by omega]
      exact ih (r + 1) reached.pass

/-! ### Packing -/

/-- The data of the valid columns in their order. -/
def packed (size : Nat) (i : Lane wide) : List (BitVec wide) := ((List.range size).filter i.valid).map i.data

theorem range_filter (valid : Nat → Bool) {size x : Nat} (inside : x < size) (here : valid x = true) :
    ((List.range size).filter valid)[x - gaps valid (x + 1)]? = some x := by
  have before (n : Nat) : ((List.range n).filter valid).length + gaps valid n = n := by
    induction n with
    | zero => rfl
    | succ n ih =>
        rw [List.range_succ, List.filter_append, List.length_append, gaps_succ]
        cases last : valid n <;> simp [last] <;> omega
  obtain ⟨more, rfl⟩ := Nat.exists_eq_add_of_le (Nat.succ_le_of_lt inside)
  have place : x - gaps valid (x + 1) = ((List.range x).filter valid).length := by
    have sum := before x
    rw [gaps_succ, here, if_neg (by decide), Nat.add_zero]
    omega
  rw [place, List.range_add, List.filter_append, Nat.succ_eq_add_one, List.range_succ, List.filter_append,
    List.append_assoc,
    List.getElem?_append_right le_rfl, Nat.sub_self, List.filter_cons, if_pos here, List.cons_append,
    List.getElem?_cons_zero]

theorem gaps_room (valid : Nat → Bool) {x : Nat} (here : valid x = true) : gaps valid (x + 1) ≤ x := by
  rw [gaps_succ, here, if_neg (by decide), Nat.add_zero]
  exact Nat.count_le _

theorem lines_slow (valid : Nat → Bool) (size : Nat) : Slow size fun q => gaps valid (q + 1) := by
  intro q inside
  have next := gaps_succ valid (q + 1)
  dsimp only
  split at next <;> omega

theorem cells_filled (i : Lane wide) (size : Nat) : Filled size (fun q => gaps i.valid (q + 1)) (cell i) := by
  intro x inside some
  have here : i.valid x = true := by
    rw [cell] at some
    split at some
    · assumption
    · cases some
  refine ⟨gaps_room i.valid here, fun holes => ?_⟩
  cases x with
  | zero => rfl
  | succ x => simp [gaps_succ i.valid (x + 1), here]

theorem passes_packed (size : Nat) (i : Lane wide) {p : Nat} (inside : p < size) :
    cell (passes size 0 (fEcaLog2 size) i) p = (packed size i)[p]? := by
  have slow := lines_slow i.valid size
  have filled := cells_filled i size
  have reached := reached_passes 0 (fEcaLog2 size) (reached_zero size i)
  rw [Nat.zero_add] at reached
  have enough (x : Nat) (bound : x < size) (here : i.valid x = true) :
      gaps i.valid (x + 1) % 2 ^ fEcaLog2 size = gaps i.valid (x + 1) := by
    have room := gaps_room i.valid here
    have deep := (log2_le size (fEcaLog2 size)).1 le_rfl
    exact Nat.mod_eq_of_lt (by omega)
  have valid (x : Nat) (v : BitVec wide) (data : cell i x = some v) : i.valid x = true ∧ i.data x = v := by
    rw [cell] at data
    split at data
    · exact ⟨‹_›, Option.some.inj data⟩
    · cases data
  rw [reached.cells p inside]
  cases shown : layers size (lines i.valid) (cell i) (fEcaLog2 size) p with
  | some v =>
      have comes : Comes size (fun q => gaps i.valid (q + 1)) (cell i)
          (layers size (lines i.valid) (cell i) (fEcaLog2 size)) (fEcaLog2 size) :=
        layers_comes slow filled (fun _ (_ : _ < fEcaLog2 size) _ _ => rfl) le_rfl
      obtain ⟨x, bound, data, place⟩ := comes p inside v shown
      obtain ⟨here, same⟩ := valid x v data
      rw [enough x bound here] at place
      rw [packed, List.getElem?_map, place, range_filter i.valid bound here, Option.map_some, same]
  | none =>
      symm
      rw [packed, List.getElem?_map, Option.map_eq_none_iff]
      by_contra some
      obtain ⟨x, found⟩ := Option.ne_none_iff_exists'.1 some
      obtain ⟨member, here⟩ := List.mem_filter.1 (List.mem_of_getElem? found)
      have bound := List.mem_range.1 member
      have own := range_filter i.valid bound here
      have place : x - gaps i.valid (x + 1) = p :=
        (List.getElem?_inj (List.getElem?_eq_some_iff.1 own).1 (List.nodup_range.filter _)).1 (own.trans found.symm)
      have room := filled x bound (by rw [cell, if_pos here]; rfl)
      have moves : layers size (lines i.valid) (cell i) (fEcaLog2 size)
          (x - gaps i.valid (x + 1) % 2 ^ fEcaLog2 size) = cell i x :=
        layers_moves (cell i) slow (fun _ _ _ _ _ => rfl) bound rfl room.2
          (show gaps i.valid (x + 1) + 0 ≤ x from room.1) le_rfl
      rw [enough x bound here, place, shown, cell, if_pos here] at moves
      cases moves

/-- The network has one instance for each bit of the column numbers, and each takes one edge. -/
theorem compact_packs :
    (∀ (size wide : Nat) (s : (ecaCompact size wide).State) (inputs : Nat → Lane wide) (n : Nat), ∀ p < size,
      let out := (ecaCompact size wide).outputs s inputs (n + fEcaLog2 size)
      (if out.valid p then some (out.data p) else none) = (packed size (inputs n))[p]?) ∧
    ∀ (len : Nat) (x : Nat → Bool), ∀ i < len, prefixXor len x i = parity x (i + 1) := by
  refine ⟨fun size wide s inputs n p inside => ?_, fun len x i inside => prefixXor_eq len x inside⟩
  have enough : fEcaLog2 size ≤ 0 + size := by
    rw [Nat.zero_add, log2_le]
    exact Nat.lt_two_pow_self.le
  have delivers : (ecaCompact size wide).Delivers (passes size 0 (fEcaLog2 size)) (fEcaLog2 size) :=
    compact_delivers size size 0 enough
  intro out
  have arrived : out = passes size 0 (fEcaLog2 size) (inputs n) := delivers s inputs n
  rw [arrived]
  exact passes_packed size (inputs n) inside

theorem compact_packs_three :
    let lane : Lane 2 := ⟨fun _ => false, fun k => decide (0 < k), fun k => BitVec.ofNat 2 k⟩
    let out := (ecaCompact 3 2).outputs (ecaCompact 3 2).reset (fun _ => lane) (0 + fEcaLog2 3)
    (if out.valid 1 then some (out.data 1) else none) = (packed 3 lane)[1]? ∧
      prefixXor 3 (fun _ => true) 2 = parity (fun _ => true) 3 :=
  ⟨compact_packs.1 3 2 (ecaCompact 3 2).reset (fun _ => _) 0 1 (by decide),
    compact_packs.2 3 (fun _ => true) 2 (by decide)⟩

end WrCores.Eca.Compact
