import WrCores.Eca.Offset
import WrCores.Eca.Piso

/-!
eca_piso_fifo.vhd over whole runs: the positions of the records are counted without end, and what the registers, the
lines and the banks hold is said in terms of them.
-/

namespace WrCores.Eca.Piso

open Clocked Network

variable {p mem w : Nat}

/-! ### Counting the holes -/

/-- The ports below `n` without a record, and those with one. -/
def zeros (push : Nat → Bool) : Nat → Nat
  | 0 => 0
  | n + 1 => zeros push n + (!push n).toNat

def rank (push : Nat → Bool) : Nat → Nat
  | 0 => 0
  | n + 1 => rank push n + (push n).toNat

theorem zeros_add_rank (push : Nat → Bool) (n : Nat) : zeros push n + rank push n = n := by
  induction n with
  | zero => rfl
  | succ n ih =>
      rw [zeros, rank]
      cases push n <;> simp <;> omega

theorem zeros_range (push : Nat → Bool) {m n : Nat} (order : m ≤ n) :
    zeros push m ≤ zeros push n ∧ zeros push n ≤ zeros push m + (n - m) := by
  induction n, order using Nat.le_induction with
  | base => omega
  | succ n order ih =>
      have bit := (!push n).toNat_le
      rw [zeros]
      omega

theorem column_shift (ina : Nat → Bool) (inb : Bool) (r : Nat) :
    column ina inb (r + 1) = column (fun r => ina (r + 1)) (ina 0 && inb) r := by
  induction r with
  | zero => rfl
  | succ r ih =>
      rw [column, ih]
      rfl

/-- A column adds its bit to the number that comes in. -/
theorem column_adds (n : Nat) (inb : Bool) (r : Nat) :
    (column n.testBit inb r).2 = (n + inb.toNat).testBit r := by
  induction r generalizing n inb with
  | zero =>
      rw [column, Nat.testBit_zero, Nat.testBit_zero]
      cases inb <;> rcases Nat.mod_two_eq_zero_or_one n with even | odd <;> simp [Nat.add_mod, *]
  | succ r ih =>
      have half : (fun r => n.testBit (r + 1)) = (n / 2).testBit := by
        funext r
        rw [Nat.testBit_succ]
      have carry : (n + inb.toNat) / 2 = n / 2 + (n.testBit 0 && inb).toNat := by
        rw [Nat.testBit_zero]
        rcases Nat.mod_two_eq_zero_or_one n with even | odd <;> cases inb <;> simp [*] <;> omega
      rw [column_shift, half, ih, Nat.testBit_succ, carry]

theorem sXor_eq (holes : BitVec (p + 1)) (push : Nat → Bool) (c r : Nat) :
    sXor holes push c r = (holes.toNat + zeros push (c + 1)).testBit r := by
  induction c generalizing r with
  | zero =>
      have bits : holes.getLsbD = holes.toNat.testBit := by
        funext r
        exact (BitVec.testBit_toNat holes).symm
      change (column holes.getLsbD (!push 0) r).2 = _
      rw [bits, column_adds, zeros, zeros, Nat.zero_add]
  | succ c ih =>
      have bits : sXor holes push c = (holes.toNat + zeros push (c + 1)).testBit := funext ih
      change (column (sXor holes push c) (!push (c + 1)) r).2 = _
      rw [bits, column_adds, zeros, Nat.add_assoc]
      rfl

/-! ### The place in the row -/

theorem two_pow_succ (p : Nat) : 2 ^ (p + 1) = 2 * 2 ^ p := by rw [Nat.pow_succ, Nat.mul_comm]

theorem top_bit (x : BitVec (p + 1)) : x.getLsbD p = decide (2 ^ p ≤ x.toNat) := by
  have msb := BitVec.msb_eq_decide x
  rwa [BitVec.msb_eq_getLsbD_last, Nat.add_sub_cancel] at msb

/-- The holes when the row is filled up to `a`. -/
def Filled (s : State p mem w) (a : Nat) : Prop := a < 2 ^ p ∧ s.rHoles.toNat = 2 ^ p - a

theorem sSubs_toNat {s : State p mem w} {a n : Nat} (filled : Filled s a) (small : n ≤ 2 ^ p) :
    (s.sSubs n).toNat = if a + n ≤ 2 ^ p then 2 ^ p - a - n else 3 * 2 ^ p - a - n := by
  obtain ⟨inside, holes⟩ := filled
  have power := two_pow_succ p
  have positive := Nat.two_pow_pos p
  rw [State.sSubs, BitVec.toNat_sub, BitVec.toNat_ofNat, holes, Nat.mod_eq_of_lt (by omega : n < 2 ^ (p + 1))]
  split
  next low =>
    rw [show 2 ^ (p + 1) - n + (2 ^ p - a) = 2 ^ p - a - n + 2 ^ (p + 1) by omega, Nat.add_mod_right,
      Nat.mod_eq_of_lt (by omega)]
  next high => rw [Nat.mod_eq_of_lt (by omega), power]; omega

theorem sLtIdle_eq {s : State p mem w} {a n : Nat} (filled : Filled s a) (small : n < 2 ^ p) :
    s.sLtIdle n = decide (n < a) := by
  have inside := filled.1
  rw [State.sLtIdle, top_bit, sSubs_toNat filled (by omega), decide_eq_decide]
  split <;> omega

theorem sLast_toNat {s : State p mem w} {a : Nat} (filled : Filled s a) (i : In w) :
    (s.sLast i).toNat =
      if a + rank i.push (2 ^ p) = 0 then 0 else 2 ^ (p + 1) - (a + rank i.push (2 ^ p)) := by
  have inside := filled.1
  have power := two_pow_succ p
  have sum := zeros_add_rank i.push (2 ^ p)
  have last : 2 ^ p - 1 + 1 = 2 ^ p := Nat.sub_add_cancel Nat.one_le_two_pow
  have bits : (fun r : Fin (p + 1) => sXor s.rHoles i.push (2 ^ p - 1) r) =
      fun r : Fin (p + 1) => (2 ^ p - a + zeros i.push (2 ^ p)).testBit r := by
    funext r
    rw [sXor_eq, filled.2, last]
  rw [State.sLast, bits, Nat.ofBits_testBit, BitVec.toNat_ofNat, Nat.mod_mod]
  split
  next none => rw [show 2 ^ p - a + zeros i.push (2 ^ p) = 2 ^ (p + 1) by omega, Nat.mod_self]
  next some =>
    rw [Nat.mod_eq_of_lt (by omega)]
    omega

/-- The row is full when the records of this cycle are in it. -/
theorem sInc_eq {s : State p mem w} {a : Nat} (filled : Filled s a) (i : In w) :
    s.sInc i = decide (2 ^ p ≤ a + rank i.push (2 ^ p)) := by
  have inside := filled.1
  have power := two_pow_succ p
  have sum := zeros_add_rank i.push (2 ^ p)
  have one : BitVec.toNat (1 : BitVec (p + 1)) = 1 := BitVec.toNat_one (by omega)
  rw [State.sInc, decide_eq_decide, BitVec.toNat_sub, sLast_toNat filled, one]
  split
  next none =>
    rw [Nat.add_zero, Nat.mod_eq_of_lt (by omega)]
    omega
  next some =>
    rw [show 2 ^ (p + 1) - 1 + (2 ^ (p + 1) - (a + rank i.push (2 ^ p))) =
      2 ^ (p + 1) - (a + rank i.push (2 ^ p)) - 1 + 2 ^ (p + 1) by omega, Nat.add_mod_right,
      Nat.mod_eq_of_lt (by omega)]
    omega

/-- `s_inc` keeps the number or changes its highest bit. -/
theorem xnor_toNat (x : BitVec (p + 1)) (inc : Bool) :
    (~~~(x ^^^ BitVec.cons inc (BitVec.allOnes p))).toNat =
      if inc then x.toNat else if 2 ^ p ≤ x.toNat then x.toNat - 2 ^ p else x.toNat + 2 ^ p := by
  have bound := x.isLt
  have power := two_pow_succ p
  have split := BitVec.cons_msb_setWidth x
  have top := BitVec.msb_eq_decide x
  have low : ~~~(x.setWidth p ^^^ BitVec.allOnes p) = x.setWidth p := by simp
  have whole : ~~~(x ^^^ BitVec.cons inc (BitVec.allOnes p)) = BitVec.cons (!(x.msb ^^ inc)) (x.setWidth p) := by
    nth_rewrite 1 [← split]
    rw [BitVec.cons_xor_cons, BitVec.not_cons, low]
  rw [whole, BitVec.toNat_cons', BitVec.toNat_setWidth, top, Nat.shiftLeft_eq, Nat.add_sub_cancel]
  by_cases high : 2 ^ p ≤ x.toNat
  · have rest : x.toNat % 2 ^ p = x.toNat - 2 ^ p := by
      rw [Nat.mod_eq_sub_mod high, Nat.mod_eq_of_lt (by omega)]
    cases inc <;> simp [high, rest]
  · have rest : x.toNat % 2 ^ p = x.toNat := Nat.mod_eq_of_lt (by omega)
    cases inc with
    | true => simp [high, rest]
    | false =>
        simp only [high, rest, decide_false, Bool.bne_false, Bool.not_false, Bool.toNat_true, Bool.false_eq_true,
          if_false]
        omega

/-- The place behind `j` records, in the row or in the next one. -/
def place (p a j : Nat) : Nat := if a + j < 2 ^ p then a + j else a + j - 2 ^ p

theorem filled_step {s : State p mem w} {a : Nat} (filled : Filled s a) (i : In w) :
    Filled (s.step i) (place p a (rank i.push (2 ^ p))) := by
  have inside := filled.1
  have power := two_pow_succ p
  have sum := zeros_add_rank i.push (2 ^ p)
  have next : (s.step i).rHoles.toNat = (~~~(s.sLast i ^^^ BitVec.cons (s.sInc i) (BitVec.allOnes p))).toNat := rfl
  rw [xnor_toNat, sLast_toNat filled, sInc_eq filled] at next
  rw [place]
  by_cases row : a + rank i.push (2 ^ p) < 2 ^ p
  · rw [if_pos row]
    refine ⟨row, ?_⟩
    rw [next, decide_eq_false (by omega), if_neg Bool.false_ne_true]
    split
    next none =>
      rw [if_neg (by omega)]
      omega
    next some =>
      rw [if_pos (by omega)]
      omega
  · rw [if_neg row]
    refine ⟨by omega, ?_⟩
    rw [next, decide_eq_true (by omega), if_pos rfl, if_neg (by omega)]
    omega

/-! ### The way of a record -/

/-- The number of a column: the holes below it, where the lower half counts as empty from `a` on. -/
def holesBelow (p a : Nat) (push : Nat → Bool) (q : Nat) : Nat :=
  if q < 2 ^ p then q + 1 - a else 2 ^ p - a + zeros push (q - 2 ^ p + 1)

theorem holesBelow_slow {a : Nat} (inside : a < 2 ^ p) (push : Nat → Bool) :
    Slow (2 * 2 ^ p) (holesBelow p a push) := by
  intro q _
  rw [holesBelow, holesBelow]
  by_cases low : q + 1 < 2 ^ p
  · rw [if_pos low, if_pos (by omega)]
    omega
  · by_cases half : q < 2 ^ p
    · have start : q + 1 - 2 ^ p = 0 := by omega
      have bit := (!push 0).toNat_le
      rw [if_pos half, if_neg low, start, zeros, zeros]
      omega
    · have next : q + 1 - 2 ^ p + 1 = q - 2 ^ p + 1 + 1 := by omega
      have step := zeros_range push (Nat.le_add_right (q - 2 ^ p + 1) 1)
      rw [if_neg half, if_neg low, next]
      omega

theorem control_line {s : State p mem w} {a : Nat} (filled : Filled s a) (i : In w) {r q : Nat} (row : r < p)
    (above : a ≤ q + 1) : s.nextControl i r q = (holesBelow p a i.push q).testBit r := by
  rw [State.nextControl, if_pos row, holesBelow]
  split
  next low =>
    rw [← BitVec.testBit_toNat, sSubs_toNat filled (by omega), if_pos (by omega)]
    congr 1
    omega
  next high => rw [sXor_eq, filled.2]

/-- The last layer fetches from the upper half what belongs into the next row and what came through the holes. -/
theorem control_last {s : State p mem w} {a : Nat} (filled : Filled s a) (i : In w) {n : Nat} (small : n < 2 ^ p) :
    s.nextControl i p (n + 2 ^ p - 1) = decide (n < a ∨ a ≤ zeros i.push n) := by
  have inside := filled.1
  have power := two_pow_succ p
  rw [State.nextControl, if_neg (lt_irrefl p)]
  cases n with
  | zero =>
      rw [if_pos (by omega), zeros]
      exact (decide_eq_true (by omega)).symm
  | succ n =>
      have port : n + 1 + 2 ^ p - 1 - 2 ^ p = n := by omega
      have range := zeros_range i.push (Nat.zero_le (n + 1))
      have start : zeros i.push 0 = 0 := rfl
      have top : (2 ^ p - a + zeros i.push (n + 1)).testBit p = decide (a ≤ zeros i.push (n + 1)) := by
        have value : BitVec.toNat (BitVec.ofNat (p + 1) (2 ^ p - a + zeros i.push (n + 1))) =
            2 ^ p - a + zeros i.push (n + 1) := by
          rw [BitVec.toNat_ofNat, Nat.mod_eq_of_lt (by omega)]
        rw [← value, BitVec.testBit_toNat, top_bit, value, decide_eq_decide]
        omega
      have wraps : (s.sSubs (2 ^ p - 1 - n)).getLsbD p = decide (n + 1 < a) := by
        rw [top_bit, sSubs_toNat filled (by omega), decide_eq_decide]
        split <;> omega
      rw [if_neg (by omega), port, sXor_eq, filled.2, top, wraps, ← Bool.decide_or, decide_eq_decide]
      exact or_comm

/-- Every record arrives in its bank. -/
theorem muxes_place {s : State p mem w} {a : Nat} (filled : Filled s a) (i : In w) {c : Nat} (port : c < 2 ^ p)
    (here : i.push c = true) :
    (s.step i).sMuxes (p + 1) (place p a (rank i.push c)) = some (i.data c) := by
  have inside := filled.1
  have sum := zeros_add_rank i.push c
  have same : zeros i.push (c + 1) = zeros i.push c := by
    rw [zeros, here]
    rfl
  have count : holesBelow p a i.push (2 ^ p + c) = 2 ^ p - a + zeros i.push c := by
    rw [holesBelow, if_neg (by omega), Nat.add_sub_cancel_left, same]
  have before : holesBelow p a i.push (2 ^ p + c - 1) = 2 ^ p - a + zeros i.push c := by
    cases c with
    | zero =>
        rw [holesBelow, if_pos (by omega), zeros]
        omega
    | succ c => rw [holesBelow, if_neg (by omega), show 2 ^ p + (c + 1) - 1 - 2 ^ p + 1 = c + 1 by omega]
  have arrived : layers (2 * 2 ^ p) (s.nextControl i)
      (fun c => if c < 2 ^ p then none else some (i.data (c - 2 ^ p))) p
      (2 ^ p + c - (2 ^ p - a + zeros i.push c) % 2 ^ p) = some (i.data c) := by
    have moved := layers_moves (fun c => if c < 2 ^ p then none else some (i.data (c - 2 ^ p)))
      (holesBelow_slow inside i.push) (fun r row q _ above => control_line filled i row above)
      (by omega : 2 ^ p + c < 2 * 2 ^ p) count (fun _ => before) (by omega) le_rfl
    rw [moved, if_neg (by omega), Nat.add_sub_cancel_left]
  -- The last layer, by the half the record is in before it.
  have last (n : Nat) (small : n < 2 ^ p) : (s.step i).sMuxes (p + 1) n =
      if n < a ∨ a ≤ zeros i.push n then (s.step i).sMuxes p (n + 2 ^ p) else (s.step i).sMuxes p n := by
    have control := control_last filled i small
    have layered : (s.step i).sMuxes (p + 1) n =
        layer (2 * 2 ^ p) (s.nextControl i p) (2 ^ p) ((s.step i).sMuxes p) n := rfl
    rw [layered, layer, if_pos (by omega), control]
    simp only [decide_eq_true_eq]
  have arrived' : (s.step i).sMuxes p (2 ^ p + c - (2 ^ p - a + zeros i.push c) % 2 ^ p) = some (i.data c) := arrived
  have below := zeros_range i.push (Nat.zero_le c)
  have start : zeros i.push 0 = 0 := rfl
  by_cases through : a ≤ zeros i.push c
  · have column : 2 ^ p + c - (2 ^ p - a + zeros i.push c) % 2 ^ p = a + rank i.push c + 2 ^ p := by
      rw [show 2 ^ p - a + zeros i.push c = zeros i.push c - a + 2 ^ p by omega, Nat.add_mod_right,
        Nat.mod_eq_of_lt (by omega)]
      omega
    have range := zeros_range i.push (show a + rank i.push c ≤ c by omega)
    rw [place, if_pos (by omega), last _ (by omega), if_pos (by omega), ← column, arrived']
  · have column : 2 ^ p + c - (2 ^ p - a + zeros i.push c) % 2 ^ p = a + rank i.push c := by
      rw [Nat.mod_eq_of_lt (by omega)]
      omega
    rw [column] at arrived'
    rw [place]
    split
    next row =>
      have range := zeros_range i.push (show c + 1 ≤ a + rank i.push c by omega)
      rw [last _ row, if_neg (by omega), arrived']
    next wrap =>
      have upper : a + rank i.push c - 2 ^ p + 2 ^ p = a + rank i.push c := by omega
      rw [last _ (by omega), if_pos (by omega), upper, arrived']

/-! ### Positions -/

theorem rank_mono (push : Nat → Bool) {m n : Nat} (order : m ≤ n) : rank push m ≤ rank push n := by
  induction n, order using Nat.le_induction with
  | base => exact le_rfl
  | succ n order ih =>
      rw [rank]
      omega

theorem rank_port (push : Nat → Bool) {j n : Nat} (less : j < rank push n) : ∃ c < n, push c = true ∧ rank push c =
    j := by
  induction n with
  | zero => exact absurd less (Nat.not_lt_zero j)
  | succ n ih =>
      rw [rank] at less
      by_cases before : j < rank push n
      · obtain ⟨c, small, here, place⟩ := ih before
        exact ⟨c, by omega, here, place⟩
      · cases here : push n with
        | false =>
            rw [here, Bool.toNat_false] at less
            omega
        | true =>
            rw [here, Bool.toNat_true] at less
            exact ⟨n, by omega, here, by omega⟩

/-- The records of the ports below `n`. -/
def recordsBelow (i : In w) (n : Nat) : List (BitVec w) := ((List.range n).filter i.push).map i.data

theorem recordsBelow_succ (i : In w) (n : Nat) :
    recordsBelow i (n + 1) = recordsBelow i n ++ if i.push n then [i.data n] else [] := by
  rw [recordsBelow, recordsBelow, List.range_succ, List.filter_append, List.map_append]
  cases here : i.push n <;> simp [here]

theorem recordsBelow_length (i : In w) (n : Nat) : (recordsBelow i n).length = rank i.push n := by
  induction n with
  | zero => rfl
  | succ n ih =>
      rw [recordsBelow_succ, List.length_append, ih, rank]
      cases i.push n <;> rfl

theorem recordsBelow_get (i : In w) {c n : Nat} (small : c < n) (here : i.push c = true) :
    (recordsBelow i n)[rank i.push c]? = some (i.data c) := by
  induction n with
  | zero => exact absurd small (Nat.not_lt_zero c)
  | succ n ih =>
      rw [recordsBelow_succ]
      by_cases before : c < n
      · have less : rank i.push c < (recordsBelow i n).length := by
          have order := rank_mono i.push (show c + 1 ≤ n from before)
          rw [rank, here, Bool.toNat_true] at order
          rw [recordsBelow_length]
          omega
        rw [List.getElem?_append_left less, ih before]
      · obtain rfl : c = n := by omega
        rw [List.getElem?_append_right (by rw [recordsBelow_length]), recordsBelow_length, Nat.sub_self, here]
        rfl

theorem place_eq (count : Nat) {j : Nat} (small : j ≤ 2 ^ p) : place p (count % 2 ^ p) j = (count + j) % 2 ^ p := by
  have inside := Nat.mod_lt count (Nat.two_pow_pos p)
  rw [Nat.add_mod, place]
  by_cases whole : j = 2 ^ p
  · rw [if_neg (by omega), whole, Nat.mod_self, Nat.add_zero, Nat.mod_mod]
    omega
  · rw [Nat.mod_eq_of_lt (by omega : j < 2 ^ p)]
    split
    next row => rw [Nat.mod_eq_of_lt row]
    next wrap =>
      have once : (count % 2 ^ p + j) % 2 ^ p = (count % 2 ^ p + j - 2 ^ p) % 2 ^ p := Nat.mod_eq_sub_mod (by omega)
      have less : (count % 2 ^ p + j - 2 ^ p) % 2 ^ p = count % 2 ^ p + j - 2 ^ p := Nat.mod_eq_of_lt (by omega)
      rw [once, less]

/-- The row of a position. -/
theorem row_eq (count : Nat) {j : Nat} (small : j ≤ 2 ^ p) :
    (count + j) / 2 ^ p = count / 2 ^ p + if 2 ^ p ≤ count % 2 ^ p + j then 1 else 0 := by
  have positive := Nat.two_pow_pos p
  have inside := Nat.mod_lt count positive
  have split : count + j = count % 2 ^ p + j + 2 ^ p * (count / 2 ^ p) := by
    have whole := Nat.div_add_mod count (2 ^ p)
    omega
  rw [split, Nat.add_mul_div_left _ _ positive, Nat.add_comm]
  congr 1
  split
  next wrap => rw [Nat.div_eq_sub_div positive wrap, Nat.div_eq_of_lt (by omega)]
  next row => exact Nat.div_eq_of_lt (by omega)

/-- Two positions that are less than the capacity apart do not share a cell. -/
theorem cells_apart {x y : Nat} (order : x < y) (near : y < x + 2 ^ (mem + p)) (bank : x % 2 ^ p = y % 2 ^ p) :
    BitVec.ofNat mem (x / 2 ^ p) ≠ BitVec.ofNat mem (y / 2 ^ p) := by
  intro same
  have rows := congrArg BitVec.toNat same
  rw [BitVec.toNat_ofNat, BitVec.toNat_ofNat] at rows
  have left : x % 2 ^ (mem + p) = y % 2 ^ (mem + p) := by
    rw [Nat.add_comm mem p, Nat.pow_add, Nat.mod_mul, Nat.mod_mul, bank, rows]
  have gap : (y - x) % 2 ^ (mem + p) = 0 := (Nat.sub_mod_eq_zero_of_mod_eq left.symm)
  rw [Nat.mod_eq_of_lt (by omega)] at gap
  omega

/-- The parts of an address. -/
theorem addr_high {x : BitVec (mem + p + 1)} {n : Nat} (value : x.toNat = n % 2 ^ (mem + p + 1)) :
    x.extractLsb' p mem = BitVec.ofNat mem (n / 2 ^ p) := by
  apply BitVec.eq_of_toNat_eq
  have order : mem + p + 1 = p + (mem + 1) := by omega
  rw [BitVec.extractLsb'_toNat, value, Nat.shiftRight_eq_div_pow, BitVec.toNat_ofNat, order, Nat.pow_add,
    Nat.mod_mul_right_div_self, Nat.pow_succ, Nat.mod_mul_right_mod]

theorem addr_low {x : BitVec (mem + p + 1)} {n : Nat} (value : x.toNat = n % 2 ^ (mem + p + 1)) :
    (x.setWidth p).toNat = n % 2 ^ p := by
  have order : mem + p + 1 = p + (mem + 1) := by omega
  rw [BitVec.toNat_setWidth, value, order, Nat.pow_add, Nat.mod_mul_right_mod]

/-! ### Runs -/

/-- The records that have come in, and how many of them had come one and two cycles ago; how many have gone out. -/
structure Ledger (w : Nat) where
  log : List (BitVec w) := []
  written : Nat := 0
  readable : Nat := 0
  taken : Nat := 0

def Ledger.next (l : Ledger w) (p : Nat) (pops : Bool) (i : In w) : Ledger w where
  log := l.log ++ pushed p i
  written := l.log.length
  readable := l.written
  taken := l.taken + pops.toNat

/-- What the registers and the banks know of the records. -/
structure Kept (s : State p mem w) (l : Ledger w) : Prop where
  order : l.taken ≤ l.readable ∧ l.readable ≤ l.written ∧ l.written ≤ l.log.length ∧
    l.log.length ≤ l.written + 2 ^ p
  holes : Filled s (l.log.length % 2 ^ p)
  inc : s.rInc = decide (2 ^ p ≤ l.written % 2 ^ p + (l.log.length - l.written))
  waddr : s.rWaddr.toNat = l.written % 2 ^ (mem + p + 1)
  raddr : s.rRaddr.toNat = l.taken % 2 ^ (mem + p + 1)
  valid : s.rValid = decide (l.taken < l.readable)
  geWrite : l.log = [] ∨ ∀ n < 2 ^ p, s.rGeWrite n = decide (l.written % 2 ^ p ≤ n)
  staged : ∀ n, l.written ≤ n → n < l.log.length → s.sMuxes (p + 1) (n % 2 ^ p) = l.log[n]?
  stored : ∀ n, l.taken ≤ n → n < l.written →
    (s.banks (n % 2 ^ p)).memory (BitVec.ofNat mem (n / 2 ^ p)) = l.log[n]?
  shown : l.taken < l.readable → s.dataO = l.log[l.taken]?

theorem kept_reset {s : State p mem w} (reset : AfterReset s) : Kept s {} where
  order := ⟨le_rfl, le_rfl, le_rfl, Nat.zero_le _⟩
  holes := by
    refine ⟨Nat.mod_lt _ (Nat.two_pow_pos p), ?_⟩
    have power := two_pow_succ p
    have positive := Nat.two_pow_pos p
    rw [reset.rHoles, BitVec.toNat_ofNat, Nat.mod_eq_of_lt (by omega)]
    simp
  inc := by
    rw [reset.rInc]
    simp
  waddr := by
    rw [reset.rWaddr]
    simp
  raddr := by
    rw [reset.rRaddr]
    simp
  valid := by
    rw [reset.rValid]
    simp
  geWrite := .inl rfl
  staged n _ inside := absurd inside (Nat.not_lt_zero n)
  stored n _ inside := absurd inside (Nat.not_lt_zero n)
  shown inside := absurd inside (Nat.not_lt_zero 0)

/-- Where a bank is written, the position it gets. -/
theorem wen_iff {s : State p mem w} {l : Ledger w} (kept : Kept s l) {n : Nat} (bank : n < 2 ^ p) :
    s.sWen n = true ↔ ∃ k, l.written ≤ k ∧ k < l.log.length ∧ k % 2 ^ p = n := by
  obtain ⟨-, -, first, last⟩ := kept.order
  have inside := Nat.mod_lt l.written (Nat.two_pow_pos p)
  have filled := place_eq l.written (show l.log.length - l.written ≤ 2 ^ p by omega)
  rw [show l.written + (l.log.length - l.written) = l.log.length by omega, place] at filled
  rw [State.sWen, sLtIdle_eq kept.holes bank, kept.inc]
  have positions : (∃ k, l.written ≤ k ∧ k < l.log.length ∧ k % 2 ^ p = n) ↔
      ∃ j < l.log.length - l.written, place p (l.written % 2 ^ p) j = n := by
    constructor
    · rintro ⟨k, low, high, here⟩
      refine ⟨k - l.written, by omega, ?_⟩
      rw [place_eq _ (by omega), show l.written + (k - l.written) = k by omega, here]
    · rintro ⟨j, less, here⟩
      refine ⟨l.written + j, by omega, by omega, ?_⟩
      rw [← place_eq _ (by omega), here]
  rw [positions]
  rcases kept.geWrite with empty | line
  · -- The lines are not yet known after the reset, but nothing is there to be written.
    rw [empty, List.length_nil] at first filled last ⊢
    have zero : l.written = 0 := by omega
    simp [zero]
  · rw [line n bank]
    by_cases full : 2 ^ p ≤ l.written % 2 ^ p + (l.log.length - l.written)
    · rw [decide_eq_true full, if_pos rfl, ← Bool.decide_or, decide_eq_true_eq]
      rw [if_neg (by omega)] at filled
      constructor
      · rintro (high | low)
        · exact ⟨n - l.written % 2 ^ p, by omega, by rw [place, if_pos (by omega)]; omega⟩
        · exact ⟨n + 2 ^ p - l.written % 2 ^ p, by omega, by rw [place, if_neg (by omega)]; omega⟩
      · rintro ⟨j, less, here⟩
        rw [place] at here
        split at here <;> omega
    · rw [decide_eq_false full, if_neg Bool.false_ne_true, ← Bool.decide_and, decide_eq_true_eq]
      rw [if_pos (by omega)] at filled
      constructor
      · rintro ⟨high, low⟩
        exact ⟨n - l.written % 2 ^ p, by omega, by rw [place, if_pos (by omega)]; omega⟩
      · rintro ⟨j, less, here⟩
        rw [place, if_pos (by omega)] at here
        omega

theorem ofBool_setWidth (b : Bool) (m : Nat) : (BitVec.ofBool b).setWidth m = BitVec.ofNat m b.toNat := by
  apply BitVec.eq_of_toNat_eq
  cases b <;> simp

/-- The row that a bank is written in. -/
theorem waddrs_row {s : State p mem w} {l : Ledger w} (kept : Kept s l) {k : Nat} (first : l.written ≤ k)
    (last : k < l.log.length) : s.sWaddrsHigh (k % 2 ^ p) = BitVec.ofNat mem (k / 2 ^ p) := by
  have near := kept.order.2.2.2
  have positive := Nat.two_pow_pos p
  have inside := Nat.mod_lt l.written positive
  have some : l.log ≠ [] := List.ne_nil_of_length_pos (by omega)
  have line := kept.geWrite.resolve_left some (k % 2 ^ p) (Nat.mod_lt k positive)
  have bank := place_eq l.written (show k - l.written ≤ 2 ^ p by omega)
  have row := row_eq l.written (show k - l.written ≤ 2 ^ p by omega)
  rw [show l.written + (k - l.written) = k by omega] at bank row
  rw [State.sWaddrsHigh, addr_high kept.waddr, line, ofBool_setWidth, ← BitVec.ofNat_add, row]
  congr 2
  rw [← bank, place]
  by_cases wrap : 2 ^ p ≤ l.written % 2 ^ p + (k - l.written)
  · rw [if_neg (by omega), if_pos wrap, decide_eq_false (by omega)]
    rfl
  · rw [if_pos (by omega), if_neg wrap, decide_eq_true (by omega)]
    rfl

theorem raddr_next {s : State p mem w} {l : Ledger w} (kept : Kept s l) (i : In w) :
    (s.sRaddr i).toNat = (l.taken + (s.sPop i).toNat) % 2 ^ (mem + p + 1) := by
  rw [State.sRaddr, ofBool_setWidth, BitVec.toNat_add, kept.raddr, BitVec.toNat_ofNat, ← Nat.add_mod]

/-- The low part of the address is what the holes leave. -/
theorem waddr_low {s : State p mem w} {a : Nat} (filled : Filled s a) :
    BitVec.ofNat p (2 ^ p - 1) - (s.rHoles.setWidth p - 1) = BitVec.ofNat p a := by
  have positive := Nat.two_pow_pos p
  have inside := filled.1
  have whole : BitVec.ofNat p (2 ^ p) = 0 := by
    apply BitVec.eq_of_toNat_eq
    simp only [BitVec.toNat_ofNat, Nat.mod_self, BitVec.ofNat_eq_ofNat, Nat.zero_mod]
  have holes : s.rHoles.setWidth p = BitVec.ofNat p (2 ^ p - a) := by
    apply BitVec.eq_of_toNat_eq
    rw [BitVec.toNat_setWidth, filled.2, BitVec.toNat_ofNat]
  have sum : BitVec.ofNat p a + BitVec.ofNat p (2 ^ p - a) = 0 := by
    rw [← BitVec.ofNat_add, show a + (2 ^ p - a) = 2 ^ p by omega, whole]
  have ones : BitVec.ofNat p (2 ^ p - 1) + 1 = 0 := by
    have one : (1 : BitVec p) = BitVec.ofNat p 1 := rfl
    rw [one, ← BitVec.ofNat_add, show 2 ^ p - 1 + 1 = 2 ^ p by omega, whole]
  rw [holes]
  apply add_right_cancel (b := BitVec.ofNat p (2 ^ p - a))
  rw [sum]
  calc BitVec.ofNat p (2 ^ p - 1) - (BitVec.ofNat p (2 ^ p - a) - 1) + BitVec.ofNat p (2 ^ p - a)
      = BitVec.ofNat p (2 ^ p - 1) + 1 := by ring
    _ = 0 := ones

theorem waddr_next {s : State p mem w} {l : Ledger w} (kept : Kept s l) :
    s.sWaddr.toNat = l.log.length % 2 ^ (mem + p + 1) := by
  obtain ⟨-, -, first, near⟩ := kept.order
  have order : mem + p + 1 = p + (mem + 1) := by omega
  have row := row_eq l.written (show l.log.length - l.written ≤ 2 ^ p by omega)
  rw [show l.written + (l.log.length - l.written) = l.log.length by omega] at row
  have high : s.rWaddr.extractLsb' p (mem + 1) + (BitVec.ofBool s.rInc).setWidth (mem + 1) =
      BitVec.ofNat (mem + 1) (l.log.length / 2 ^ p) := by
    have rows : s.rWaddr.extractLsb' p (mem + 1) = BitVec.ofNat (mem + 1) (l.written / 2 ^ p) := by
      apply BitVec.eq_of_toNat_eq
      rw [BitVec.extractLsb'_toNat, kept.waddr, Nat.shiftRight_eq_div_pow, BitVec.toNat_ofNat, order, Nat.pow_add,
        Nat.mod_mul_right_div_self, Nat.mod_mod]
    rw [rows, ofBool_setWidth, ← BitVec.ofNat_add, row, kept.inc]
    congr 2
    by_cases full : 2 ^ p ≤ l.written % 2 ^ p + (l.log.length - l.written) <;> simp [full]
  have parts : l.log.length % 2 ^ (mem + p + 1) =
      l.log.length % 2 ^ p + 2 ^ p * (l.log.length / 2 ^ p % 2 ^ (mem + 1)) := by
    rw [order, Nat.pow_add, Nat.mod_mul]
  rw [parts, State.sWaddr, BitVec.toNat_cast, append_toNat, high, waddr_low kept.holes, BitVec.toNat_ofNat,
    BitVec.toNat_ofNat, Nat.mod_mod, Nat.add_comm]

/-- The cells of the records that are not taken are not written. -/
theorem stored_kept {s : State p mem w} {l : Ledger w} (kept : Kept s l)
    (room : l.log.length ≤ l.taken + 2 ^ (mem + p))
    {n : Nat} (left : l.taken ≤ n) (old : n < l.written) (writes : s.sWen (n % 2 ^ p) = true) :
    BitVec.ofNat mem (n / 2 ^ p) ≠ s.sWaddrsHigh (n % 2 ^ p) := by
  obtain ⟨k, first, last, bank⟩ := (wen_iff kept (Nat.mod_lt n (Nat.two_pow_pos p))).mp writes
  rw [← bank, waddrs_row kept first last]
  exact cells_apart (by omega) (by omega) bank.symm

theorem stored_next {s : State p mem w} {l : Ledger w} (kept : Kept s l)
    (room : l.log.length ≤ l.taken + 2 ^ (mem + p))
    (i : In w) {n : Nat} (left : l.taken ≤ n) (inside : n < l.log.length) :
    ((s.step i).banks (n % 2 ^ p)).memory (BitVec.ofNat mem (n / 2 ^ p)) = l.log[n]? := by
  have memory : ((s.step i).banks (n % 2 ^ p)).memory = if s.sWen (n % 2 ^ p) then
      Function.update (s.banks (n % 2 ^ p)).memory (s.sWaddrsHigh (n % 2 ^ p)) (s.sMuxes (p + 1) (n % 2 ^ p))
      else (s.banks (n % 2 ^ p)).memory := rfl
  rw [memory]
  by_cases old : n < l.written
  · split
    next writes => rw [Function.update_of_ne (stored_kept kept room left old writes), kept.stored n left old]
    next still => rw [kept.stored n left old]
  · have writes : s.sWen (n % 2 ^ p) = true :=
      (wen_iff kept (Nat.mod_lt n (Nat.two_pow_pos p))).mpr ⟨n, by omega, inside, rfl⟩
    rw [if_pos writes, waddrs_row kept (by omega) inside, Function.update_self, kept.staged n (by omega) inside]

/-- The record that is read is not being written. -/
theorem shown_next {s : State p mem w} {l : Ledger w} (bits : 0 < mem) (kept : Kept s l)
    (room : l.log.length ≤ l.taken + 2 ^ (mem + p)) (i : In w) (more : l.taken + (s.sPop i).toNat < l.written) :
    (s.step i).dataO = l.log[l.taken + (s.sPop i).toNat]? := by
  have addr := raddr_next kept i
  have bank : ((s.step i).rRaddr.setWidth p).toNat = (l.taken + (s.sPop i).toNat) % 2 ^ p := addr_low addr
  rw [State.dataO, bank]
  have quiet : ((s.step i).banks ((l.taken + (s.sPop i).toNat) % 2 ^ p)).bypass = false := by
    have line : ((s.step i).banks ((l.taken + (s.sPop i).toNat) % 2 ^ p)).bypass =
        (s.sWen ((l.taken + (s.sPop i).toNat) % 2 ^ p) && fEcaEq ((s.sRaddr i).extractLsb' p mem)
          (s.sWaddrsHigh ((l.taken + (s.sPop i).toNat) % 2 ^ p))) := rfl
    rw [line, addr_high addr, fEcaEq_eq, decide_eq_true bits, Bool.true_and]
    cases writes : s.sWen ((l.taken + (s.sPop i).toNat) % 2 ^ p) with
    | false => rfl
    | true => exact decide_eq_false (stored_kept kept room (by omega) more writes)
  rw [Bank.rData, quiet, if_neg Bool.false_ne_true, ← kept.stored _ (Nat.le_add_right _ _) more, ← addr_high addr]
  rfl

theorem valid_next {s : State p mem w} {l : Ledger w} (kept : Kept s l)
    (room : l.log.length ≤ l.taken + 2 ^ (mem + p))
    (i : In w) (less : l.taken + (s.sPop i).toNat ≤ l.written) :
    (s.step i).rValid = decide (l.taken + (s.sPop i).toNat < l.written) := by
  obtain ⟨-, -, first, -⟩ := kept.order
  have power := two_pow_succ (mem + p)
  have valid : (s.step i).rValid = decide (s.sRaddr i ≠ s.rWaddr) := rfl
  rw [valid, decide_eq_decide, Ne, ← BitVec.toNat_inj, raddr_next kept, kept.waddr]
  constructor
  · intro differ
    by_contra equal
    exact differ (by rw [show l.taken + (s.sPop i).toNat = l.written by omega])
  · intro more same
    have gap : (l.written - (l.taken + (s.sPop i).toNat)) % 2 ^ (mem + p + 1) = 0 :=
      Nat.sub_mod_eq_zero_of_mod_eq same.symm
    rw [Nat.mod_eq_of_lt (by omega)] at gap
    omega

/-- The records of a cycle are on their way into the positions behind those before. -/
theorem staged_next {s : State p mem w} {l : Ledger w} (kept : Kept s l) (i : In w) {n : Nat}
    (first : l.log.length ≤ n) (last : n < (l.log ++ pushed p i).length) :
    (s.step i).sMuxes (p + 1) (n % 2 ^ p) = (l.log ++ pushed p i)[n]? := by
  have count : (pushed p i).length = rank i.push (2 ^ p) := recordsBelow_length i (2 ^ p)
  rw [List.length_append, count] at last
  have sum := zeros_add_rank i.push (2 ^ p)
  obtain ⟨c, port, here, at_⟩ := rank_port i.push (show n - l.log.length < rank i.push (2 ^ p) by omega)
  have arrives := muxes_place kept.holes i port here
  rw [at_, place_eq _ (by omega), show l.log.length + (n - l.log.length) = n by omega] at arrives
  have record : (pushed p i)[n - l.log.length]? = some (i.data c) := at_ ▸ recordsBelow_get i port here
  rw [arrives, List.getElem?_append_right first, record]

theorem kept_step {s : State p mem w} {l : Ledger w} (bits : 0 < mem) (kept : Kept s l)
    (room : l.log.length ≤ l.taken + 2 ^ (mem + p)) (i : In w) : Kept (s.step i) (l.next p (s.sPop i) i) := by
  obtain ⟨taken, readable, written, near⟩ := kept.order
  have count : (pushed p i).length = rank i.push (2 ^ p) := recordsBelow_length i (2 ^ p)
  have sum := zeros_add_rank i.push (2 ^ p)
  have pops : l.taken + (s.sPop i).toNat ≤ l.readable := by
    rw [State.sPop, kept.valid]
    by_cases more : l.taken < l.readable
    · have bit := (decide (l.taken < l.readable) && i.pop).toNat_le
      omega
    · simp [more, taken]
  have total : (l.next p (s.sPop i) i).log.length = l.log.length + rank i.push (2 ^ p) := by
    rw [Ledger.next, List.length_append, count]
  have inside := Nat.mod_lt l.log.length (Nat.two_pow_pos p)
  constructor
  · refine ⟨pops.trans readable, written, ?_, ?_⟩
    · rw [total]
      exact Nat.le_add_right _ _
    · rw [total]
      exact Nat.add_le_add_left (by omega) _
  · rw [total, ← place_eq l.log.length (by omega)]
    exact filled_step kept.holes i
  · have more : (l.next p (s.sPop i) i).log.length - (l.next p (s.sPop i) i).written = rank i.push (2 ^ p) := by
      rw [total]
      exact Nat.add_sub_cancel_left _ _
    rw [more]
    exact sInc_eq kept.holes i
  · exact waddr_next kept
  · exact raddr_next kept i
  · exact valid_next kept room i (pops.trans readable)
  · right
    intro n bank
    have line : (s.step i).rGeWrite n = !s.sLtIdle n := rfl
    rw [line, sLtIdle_eq kept.holes bank, ← decide_not, decide_eq_decide, Nat.not_lt]
    rfl
  · exact fun n first last => staged_next kept i first last
  · intro n left old
    rw [stored_next kept room i (by exact (Nat.le_add_right _ _).trans left) old]
    exact (List.getElem?_append_left old).symm
  · intro more
    rw [shown_next bits kept room i more]
    exact (List.getElem?_append_left (Nat.lt_of_lt_of_le more written)).symm

def allPushed (p : Nat) (inputs : List (In w)) : List (BitVec w) := inputs.flatMap (pushed p)

def allPopped (s : State p mem w) (inputs : List (In w)) : List (Option (BitVec w)) :=
  collect State.step popped s inputs

/-- The state and the ledger side by side. -/
def stepBoth (b : State p mem w × Ledger w) (i : In w) : State p mem w × Ledger w :=
  (b.1.step i, b.2.next p (b.1.sPop i) i)

/-- In every state there is room for the records that have come in and have not been taken. -/
def Roomy (b : State p mem w × Ledger w) (_ : In w) : Prop := b.2.log.length ≤ b.2.taken + 2 ^ (mem + p)

theorem popped_next {s : State p mem w} {l : Ledger w} (kept : Kept s l) (i : In w) :
    (l.log.take l.taken).map some ++ popped s i =
      ((l.next p (s.sPop i) i).log.take (l.next p (s.sPop i) i).taken).map some := by
  obtain ⟨-, readable, written, -⟩ := kept.order
  have taken := kept.order.1
  simp only [Ledger.next]
  cases pops : s.sPop i with
  | false =>
      have none : popped s i = [] := by
        rw [State.sPop] at pops
        rw [popped, pops]
        rfl
      rw [none, List.append_nil, Bool.toNat_false, Nat.add_zero, List.take_append_of_le_length (by omega)]
  | true =>
      have valid : s.rValid = true := by
        rw [State.sPop, Bool.and_eq_true] at pops
        exact pops.1
      rw [kept.valid, decide_eq_true_eq] at valid
      have one : popped s i = [s.dataO] := by
        rw [State.sPop] at pops
        rw [popped, pops]
        rfl
      have inside : l.taken < l.log.length := by omega
      rw [one, kept.shown valid, Bool.toNat_true, List.take_append_of_le_length (by omega), List.take_add_one,
        List.map_append, List.getElem?_eq_getElem inside]
      rfl

/-- What has been taken is the beginning of what has come in. -/
theorem popped_run (bits : 0 < mem) {s : State p mem w} {l : Ledger w} {inputs : List (In w)} (kept : Kept s l)
    (roomy : Along stepBoth Roomy (s, l) inputs) :
    Kept (run stepBoth (s, l) inputs).1 (run stepBoth (s, l) inputs).2 ∧
      (run stepBoth (s, l) inputs).2.log = l.log ++ allPushed p inputs ∧
      (l.log.take l.taken).map some ++ allPopped s inputs =
        ((run stepBoth (s, l) inputs).2.log.take (run stepBoth (s, l) inputs).2.taken).map some := by
  induction inputs generalizing s l with
  | nil => exact ⟨kept, (List.append_nil _).symm, List.append_nil _⟩
  | cons i rest ih =>
      obtain ⟨after, log, sum⟩ := ih (kept_step bits kept roomy.1 i) roomy.2
      refine ⟨after, ?_, ?_⟩
      · rw [run_cons]
        exact log.trans (by simp [allPushed, Ledger.next])
      · rw [allPopped, collect_cons, ← List.append_assoc, popped_next kept i]
        exact sum

/-- The records that are stored never exceed the capacity. -/
def Fits (s : State p mem w) (inputs : List (In w)) : Prop :=
  ∀ first, first <+: inputs → (allPushed p first).length ≤ (allPopped s first).length + 2 ^ (mem + p)

/-- A cycle in which nothing comes in and a record is taken if there is one. -/
def Draining (p : Nat) (i : In w) : Prop := i.pop = true ∧ ∀ c < 2 ^ p, i.push c = false

theorem ledger_counts (s : State p mem w) (l : Ledger w) (inputs : List (In w)) :
    (run stepBoth (s, l) inputs).2.log.length = l.log.length + (allPushed p inputs).length ∧
      (run stepBoth (s, l) inputs).2.taken = l.taken + (allPopped s inputs).length := by
  induction inputs generalizing s l with
  | nil => exact ⟨rfl, rfl⟩
  | cons i rest ih =>
      obtain ⟨log, taken⟩ := ih (s.step i) (l.next p (s.sPop i) i)
      have one : (popped s i).length = (s.sPop i).toNat := by
        rw [popped, State.sPop]
        cases s.rValid && i.pop <;> rfl
      constructor
      · refine log.trans ?_
        simp only [Ledger.next, allPushed, List.flatMap_cons, List.length_append]
        omega
      · refine taken.trans ?_
        simp only [Ledger.next, allPopped, collect_cons, List.length_append, one]
        omega

theorem along_of_prefixes {S I : Type*} {step : S → I → S} {holds : S → I → Prop} {s : S} {inputs : List I}
    (each : ∀ first i, first ++ [i] <+: inputs → holds (run step s first) i) : Along step holds s inputs := by
  induction inputs generalizing s with
  | nil => trivial
  | cons i rest ih =>
      refine ⟨each [] i ⟨rest, rfl⟩, ih fun first j inside => ?_⟩
      exact each (i :: first) j (List.cons_prefix_cons.mpr ⟨rfl, inside⟩)

theorem fits_roomy {s : State p mem w} {inputs : List (In w)} (fits : Fits s inputs) :
    Along stepBoth Roomy (s, {}) inputs := by
  apply along_of_prefixes
  intro first i inside
  obtain ⟨log, taken⟩ := ledger_counts s {} first
  have room := fits first ((List.prefix_append _ _).trans inside)
  have nothing : ({} : Ledger w).log.length = 0 := rfl
  have start : ({} : Ledger w).taken = 0 := rfl
  rw [Roomy, log, taken]
  omega

theorem draining_pushed {i : In w} (draining : Draining p i) : pushed p i = [] := by
  rw [pushed, List.filter_eq_nil_iff.mpr, List.map_nil]
  intro c member
  rw [draining.2 c (List.mem_range.mp member)]
  exact Bool.false_ne_true

theorem fits_draining {s : State p mem w} {inputs rest : List (In w)} (fits : Fits s inputs)
    (draining : ∀ i ∈ rest, Draining p i) : Fits s (inputs ++ rest) := by
  intro first inside
  rcases le_total first.length inputs.length with short | long
  · exact fits first (List.prefix_of_prefix_length_le inside (List.prefix_append _ _) short)
  · obtain ⟨more, rfl⟩ := List.prefix_of_prefix_length_le (List.prefix_append inputs rest) inside long
    have within : more <+: rest := (List.prefix_append_right_inj _).mp inside
    have none : allPushed p more = [] := by
      rw [allPushed, List.flatMap_eq_nil_iff]
      exact fun i member => draining_pushed (draining i (within.subset member))
    have room := fits inputs (List.prefix_refl _)
    rw [allPushed, List.flatMap_append, List.length_append, allPopped, collect_append, List.length_append]
    rw [allPushed] at none room
    rw [none, List.length_nil]
    rw [allPopped] at room
    omega

/-- With all records readable, one goes out in every cycle. -/
theorem drains {s : State p mem w} {l : Ledger w} {inputs : List (In w)} (bits : 0 < mem) (kept : Kept s l)
    (roomy : Along stepBoth Roomy (s, l) inputs) (ready : l.readable = l.log.length)
    (draining : ∀ i ∈ inputs, Draining p i) (long : l.log.length - l.taken ≤ inputs.length) :
    (run stepBoth (s, l) inputs).2.taken = l.log.length := by
  induction inputs generalizing s l with
  | nil =>
      have taken := kept.order.1
      rw [List.length_nil] at long
      change l.taken = l.log.length
      omega
  | cons i rest ih =>
      obtain ⟨taken, readable, written, near⟩ := kept.order
      have here := draining i List.mem_cons_self
      have log : (l.next p (s.sPop i) i).log = l.log := by
        rw [Ledger.next, draining_pushed here, List.append_nil]
      have pops : (l.next p (s.sPop i) i).taken = l.taken + (decide (l.taken < l.log.length)).toNat := by
        rw [Ledger.next, State.sPop, kept.valid, here.1, Bool.and_true, ready]
      have done := ih (kept_step bits kept roomy.1 i) roomy.2
        (by rw [log]; change l.written = l.log.length; omega)
        (fun j member => draining j (List.mem_cons_of_mem i member)) (by
          rw [log, pops]
          rw [List.length_cons] at long
          by_cases more : l.taken < l.log.length
          · rw [decide_eq_true more, Bool.toNat_true]
            omega
          · omega)
      rw [log] at done
      exact done

/-- Two cycles bring all records within reach, and then they go out. -/
theorem drained {b : State p mem w × Ledger w} {rest : List (In w)} (bits : 0 < mem) (kept : Kept b.1 b.2)
    (roomy : Along stepBoth Roomy b rest) (draining : ∀ i ∈ rest, Draining p i)
    (long : b.2.log.length + 2 ≤ rest.length) :
    (run stepBoth b rest).2.log = b.2.log ∧ (run stepBoth b rest).2.taken = b.2.log.length := by
  obtain ⟨s, l⟩ := b
  simp only at kept long ⊢
  match rest, long with
  | i :: j :: rest, long =>
      have kept₁ := kept_step bits kept roomy.1 i
      have kept₂ := kept_step bits kept₁ roomy.2.1 j
      have log : ((l.next p (s.sPop i) i).next p ((s.step i).sPop j) j).log = l.log := by
        rw [Ledger.next, Ledger.next, draining_pushed (draining i (by simp)), draining_pushed (draining j (by simp)),
          List.append_nil, List.append_nil]
      have ready : ((l.next p (s.sPop i) i).next p ((s.step i).sPop j) j).readable =
          ((l.next p (s.sPop i) i).next p ((s.step i).sPop j) j).log.length := by
        rw [log]
        rfl
      have later : ∀ k ∈ rest, Draining p k := fun k member => draining k (by simp [member])
      have finished := drains bits kept₂ roomy.2.2 ready later (by
        rw [log]
        rw [List.length_cons, List.length_cons] at long
        omega)
      have same := (popped_run bits kept₂ roomy.2.2).2.1
      have none : allPushed p rest = [] := by
        rw [allPushed, List.flatMap_eq_nil_iff]
        exact fun k member => draining_pushed (later k member)
      rw [none, List.append_nil, log] at same
      rw [log] at finished
      exact ⟨same, finished⟩

/-- The records come out in the order of the cycles and ports they came in by, each once, and after two cycles there is
one in every cycle in which one is wanted. -/
theorem records_in_order (gLogSize p w : Nat) (s : State p (fSubMin1 gLogSize p) w) (reset : AfterReset s)
    (inputs : List (In w)) (fits : Fits s inputs) :
    allPopped s inputs <+: (allPushed p inputs).map some ∧
      ∀ rest, (∀ i ∈ rest, Draining p i) → (allPushed p inputs).length + 2 ≤ rest.length →
        allPopped s (inputs ++ rest) = (allPushed p inputs).map some := by
  have bits : 0 < fSubMin1 gLogSize p := by
    rw [fSubMin1]
    split <;> omega
  have start : (({} : Ledger w).log.take ({} : Ledger w).taken).map some = [] := rfl
  obtain ⟨kept, log, sum⟩ := popped_run bits (kept_reset reset) (fits_roomy fits)
  have whole : (run stepBoth (s, {}) inputs).2.log = allPushed p inputs := log
  constructor
  · rw [start, List.nil_append, whole] at sum
    rw [sum]
    exact (List.take_prefix _ _).map some
  · intro rest draining long
    have roomy := fits_roomy (fits_draining fits draining)
    obtain ⟨-, -, total⟩ := popped_run bits (kept_reset reset) roomy
    rw [along_append] at roomy
    obtain ⟨logs, taken⟩ := drained bits kept roomy.2 draining (by rw [whole]; exact long)
    rw [start, List.nil_append, run_append, logs, taken, whole, List.take_length] at total
    exact total

/-- The registers after the reset. -/
def blank (p mem w : Nat) : State p mem w where
  rHoles := BitVec.ofNat (p + 1) (2 ^ p)
  rInc := false
  rWaddr := 0
  rrWaddr := 0
  rRaddr := 0
  rValid := false
  rFresh := true
  rControl _ _ := false
  rData _ := 0
  rGeWrite _ := false
  banks _ := ⟨fun _ => none, none, false⟩

/-- Four ports: records on 1 and 3, then on 0, 2 and 3, so that the second row begins. -/
def five : List (In 8) :=
  [⟨fun c => c == 1 || c == 3, fun c => BitVec.ofNat 8 (10 + c), false⟩,
    ⟨fun c => c != 1, fun c => BitVec.ofNat 8 (20 + c), true⟩]

theorem records_in_order_five :
    let drain : In 8 := ⟨fun _ => false, fun _ => 0, true⟩
    allPopped (blank 2 (fSubMin1 3 2) 8) (five ++ List.replicate 7 drain) =
      [11, 13, 20, 22, 23].map some := by
  intro drain
  have pushes : allPushed 2 five = [11, 13, 20, 22, 23] := by decide
  have fits : Fits (blank 2 (fSubMin1 3 2) 8) five := by
    intro first inside
    have less : (allPushed 2 first).length ≤ (allPushed 2 five).length := by
      obtain ⟨more, whole⟩ := inside
      rw [← whole, allPushed, allPushed, List.flatMap_append, List.length_append]
      exact Nat.le_add_right _ _
    rw [pushes] at less
    exact less.trans (Nat.le_add_left_of_le (by decide))
  have order := (records_in_order 3 2 8 (blank 2 (fSubMin1 3 2) 8) ⟨rfl, rfl, rfl, rfl, rfl, rfl, rfl⟩ five fits).2
  rw [← pushes]
  apply order
  · intro i member
    obtain rfl := List.eq_of_mem_replicate member
    exact ⟨rfl, fun _ _ => rfl⟩
  · rw [pushes]
    decide

end WrCores.Eca.Piso
