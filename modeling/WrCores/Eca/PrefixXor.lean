import WrCores.Eca.MsiRuns
import WrCores.Network.Prefix

/-!
`prefix_xor` of eca_compact.vhd. The turns of an inner loop do not read what others write, so a row of the loop is a
sweep of the network; the bounds of the outer loops are those of the rows that have a column.
-/

namespace WrCores.Eca.Compact

open Network

/-- The inner loop of a row: `var(target(i)) := var(target(i)) xor var(source(i))`. -/
def row (target source : Nat → Nat) (turns : Nat) (var : Nat → Bool) : Nat → Bool :=
  (List.range turns).foldl (fun var i => Function.update var (target i) (var (target i) ^^ var (source i))) var

def upRow (len gap : Nat) : (Nat → Bool) → Nat → Bool :=
  row (fun i => (2 * i + 2) * gap - 1) (fun i => (2 * i + 1) * gap - 1) ((len / gap - 2) / 2 + 1)

def downRow (len gap : Nat) : (Nat → Bool) → Nat → Bool :=
  row (fun i => (2 * i + 3) * gap - 1) (fun i => (2 * i + 2) * gap - 1) ((len / gap - 3) / 2 + 1)

def prefixXor (len : Nat) (x : Nat → Bool) : Nat → Bool :=
  let var := if 1 < len then (List.range (fEcaLog2 (len + 1) - 1)).foldl (fun var r => upRow len (2 ^ r) var) x else x
  if 2 < len then (List.range (fEcaLog2 (len / 3 + 1))).reverse.foldl
    (fun var r => downRow len (2 ^ r) var) var else var

theorem log2_go_le (fuel rest r : Nat) (enough : rest ≤ fuel) : fEcaLog2.go fuel rest ≤ r ↔ rest ≤ 2 ^ r := by
  induction fuel generalizing rest r with
  | zero => simp [fEcaLog2.go, Nat.le_zero.1 enough]
  | succ fuel ih =>
      have positive := Nat.two_pow_pos r
      rw [fEcaLog2.go]
      split
      next more =>
        cases r with
        | zero => simp; omega
        | succ r =>
            have half := ih ((rest + 1) / 2) r (by omega)
            rw [Nat.succ_le_succ_iff, half, pow_succ]
            omega
      next done =>
        simp only [Nat.zero_le, true_iff]
        omega

theorem log2_le (x r : Nat) : fEcaLog2 x ≤ r ↔ x ≤ 2 ^ r := log2_go_le x x r le_rfl

section Row

variable {target source : Nat → Nat} {turns j : Nat} {var : Nat → Bool}

theorem row_other (other : ∀ i < turns, target i ≠ j) : row target source turns var j = var j := by
  induction turns with
  | zero => rfl
  | succ n ih =>
      have before := ih fun i inside => other i (by omega)
      rw [row] at before ⊢
      rw [List.range_succ, List.foldl_append, List.foldl_cons, List.foldl_nil,
        Function.update_of_ne (other n (by omega)).symm, before]

/-- No turn reads what another turn writes. -/
theorem row_target (strict : StrictMono target) (apart : ∀ i k, target i ≠ source k) {i : Nat} (inside : i < turns) :
    row target source turns var (target i) = (var (target i) ^^ var (source i)) := by
  induction turns with
  | zero => omega
  | succ n ih =>
      have unread (k : Nat) (away : ∀ i < n, target i ≠ k) : row target source n var k = var k := row_other away
      rw [row] at ih ⊢
      rw [List.range_succ, List.foldl_append, List.foldl_cons, List.foldl_nil]
      rcases Nat.lt_succ_iff_lt_or_eq.1 inside with before | rfl
      · rw [Function.update_of_ne (strict before).ne, ih before]
      · rw [Function.update_self]
        have own := unread (target i) fun k less => (strict less).ne
        have other := unread (source i) fun k _ => apart k i
        rw [row] at own other
        rw [own, other]

end Row

/-- `var(hi) xor var(lo)`. -/
def takeIn (lo hi : Bool) : Bool := hi ^^ lo

instance : Std.Associative takeIn := ⟨fun a b c => by cases a <;> cases b <;> cases c <;> rfl⟩

section Sweep

variable {len gap : Nat} (var : Nat → Bool)

theorem upRow_eq (positive : 0 < gap) (room : 2 * gap ≤ len) : upRow len gap var = sweep takeIn
    (upTakes len gap) gap var := by
  have strict : StrictMono fun i => (2 * i + 2) * gap - 1 := by
    intro i k less
    have := Nat.mul_lt_mul_of_pos_right (show 2 * i + 2 < 2 * k + 2 by omega) positive
    have : 0 < (2 * i + 2) * gap := Nat.mul_pos (by omega) positive
    dsimp only
    omega
  have apart (i k : Nat) : (2 * i + 2) * gap - 1 ≠ (2 * k + 1) * gap - 1 := by
    have : 0 < (2 * i + 2) * gap := Nat.mul_pos (by omega) positive
    have : 0 < (2 * k + 1) * gap := Nat.mul_pos (by omega) positive
    intro same
    have := Nat.eq_of_mul_eq_mul_right positive (show (2 * i + 2) * gap = (2 * k + 1) * gap by omega)
    omega
  have whole : 2 ≤ len / gap := (Nat.le_div_iff_mul_le positive).2 room
  funext j
  rw [sweep]
  by_cases takes : 2 * gap ∣ j + 1 ∧ j < len
  · obtain ⟨⟨k, number⟩, inside⟩ := takes
    cases k with
    | zero => omega
    | succ i =>
        have here : j = (2 * i + 2) * gap - 1 := by
          rw [show (2 * i + 2) * gap = 2 * gap * (i + 1) by ring]
          omega
        have fits : 2 * i + 2 ≤ len / gap := (Nat.le_div_iff_mul_le positive).2 (by
          rw [show (2 * i + 2) * gap = 2 * gap * (i + 1) by ring]
          omega)
        rw [upTakes, if_pos (decide_eq_true ⟨⟨i + 1, number⟩, inside⟩), upRow, here,
          row_target strict apart (by omega), takeIn]
        congr 2
        rw [show (2 * i + 2) * gap = (2 * i + 1) * gap + gap by ring]
        omega
  · rw [upTakes, if_neg (by rwa [decide_eq_true_iff]), upRow, row_other]
    rintro i inside rfl
    have fits : (2 * i + 2) * gap ≤ len := (Nat.le_div_iff_mul_le positive).1 (by omega)
    have : 0 < (2 * i + 2) * gap := Nat.mul_pos (by omega) positive
    refine takes ⟨⟨i + 1, ?_⟩, by omega⟩
    rw [Nat.sub_add_cancel this]
    ring

theorem downRow_eq (positive : 0 < gap) (room : 3 * gap ≤ len) :
    downRow len gap var = sweep takeIn (downTakes len gap) gap var := by
  have strict : StrictMono fun i => (2 * i + 3) * gap - 1 := by
    intro i k less
    have := Nat.mul_lt_mul_of_pos_right (show 2 * i + 3 < 2 * k + 3 by omega) positive
    have : 0 < (2 * i + 3) * gap := Nat.mul_pos (by omega) positive
    dsimp only
    omega
  have apart (i k : Nat) : (2 * i + 3) * gap - 1 ≠ (2 * k + 2) * gap - 1 := by
    have : 0 < (2 * i + 3) * gap := Nat.mul_pos (by omega) positive
    have : 0 < (2 * k + 2) * gap := Nat.mul_pos (by omega) positive
    intro same
    have := Nat.eq_of_mul_eq_mul_right positive (show (2 * i + 3) * gap = (2 * k + 2) * gap by omega)
    omega
  have whole : 3 ≤ len / gap := (Nat.le_div_iff_mul_le positive).2 room
  have number (i : Nat) : (2 * i + 3) * gap = 2 * gap * (i + 1) + gap := by ring
  funext j
  rw [sweep]
  by_cases takes : (j + 1) % (2 * gap) = gap ∧ gap < j + 1 ∧ j < len
  · have split := Nat.div_add_mod (j + 1) (2 * gap)
    rw [takes.1] at split
    cases count : (j + 1) / (2 * gap) with
    | zero => rw [count] at split; omega
    | succ i =>
        rw [count, ← number] at split
        have here : j = (2 * i + 3) * gap - 1 := by omega
        have fits : 2 * i + 3 ≤ len / gap := (Nat.le_div_iff_mul_le positive).2 (by omega)
        rw [downTakes, if_pos (decide_eq_true takes), downRow, here, row_target strict apart (by omega), takeIn]
        congr 2
        rw [show (2 * i + 3) * gap = (2 * i + 2) * gap + gap by ring]
        omega
  · rw [downTakes, if_neg (by rwa [decide_eq_true_iff]), downRow, row_other]
    rintro i inside rfl
    have fits : (2 * i + 3) * gap ≤ len := (Nat.le_div_iff_mul_le positive).1 (by omega)
    have some : 0 < (2 * i + 3) * gap := Nat.mul_pos (by omega) positive
    have two : 0 < 2 * gap * (i + 1) := Nat.mul_pos (by omega) (by omega)
    rw [number] at some fits takes
    refine takes ⟨?_, by omega, by omega⟩
    rw [Nat.sub_add_cancel some, Nat.mul_add_mod, Nat.mod_eq_of_lt (by omega)]

end Sweep

theorem up_rows (len rows : Nat) (x : Nat → Bool) (room : ∀ r < rows, 2 * 2 ^ r ≤ len) :
    (List.range rows).foldl (fun var r => upRow len (2 ^ r) var) x = up takeIn len x rows := by
  induction rows with
  | zero => rfl
  | succ n ih =>
      rw [List.range_succ, List.foldl_append, ih fun r inside => room r (by omega), List.foldl_cons, List.foldl_nil,
        upRow_eq _ (Nat.two_pow_pos n) (room n (by omega)), up]

theorem down_rows (len rows : Nat) (x : Nat → Bool) (room : ∀ r < rows, 3 * 2 ^ r ≤ len) :
    (List.range rows).reverse.foldl (fun var r => downRow len (2 ^ r) var) x = down takeIn len rows x := by
  induction rows generalizing x with
  | zero => rfl
  | succ n ih =>
      rw [List.range_succ, List.reverse_append, List.reverse_singleton, List.singleton_append, List.foldl_cons,
        ih _ fun r inside => room r (by omega), downRow_eq _ (Nat.two_pow_pos n) (room n (by omega)), down]

/-- The exclusive or of the first `n` bits. -/
def parity (x : Nat → Bool) (n : Nat) : Bool := (List.range n).foldl (fun p k => p ^^ x k) false

theorem parity_succ (x : Nat → Bool) (n : Nat) : parity x (n + 1) = (parity x n ^^ x n) := by
  rw [parity, List.range_succ, List.foldl_append]
  rfl

theorem parity_block (x : Nat → Bool) (j : Nat) : parity x (j + 1) = block takeIn x 0 j := by
  induction j with
  | zero => simp [parity, block]
  | succ j ih => rw [parity_succ, ih, block, takeIn, Nat.zero_add, Bool.xor_comm]

theorem prefixXor_eq (len : Nat) (x : Nat → Bool) {i : Nat} (inside : i < len) : prefixXor len x i = parity x
    (i + 1) := by
  have most (r : Nat) : r < fEcaLog2 (len + 1) - 1 ↔ 2 * 2 ^ r ≤ len := by
    have bound := log2_le (len + 1) (r + 1)
    rw [pow_succ] at bound
    omega
  have last (r : Nat) : r < fEcaLog2 (len / 3 + 1) ↔ 3 * 2 ^ r ≤ len := by
    have bound := log2_le (len / 3 + 1) r
    omega
  rw [parity_block, ← down_up x most last inside, ← up_rows len _ x fun r => (most r).1,
    ← down_rows len _ _ fun r => (last r).1, prefixXor]
  by_cases more : 2 < len
  · rw [if_pos more, if_pos (by omega)]
  · have none : fEcaLog2 (len / 3 + 1) = 0 := by
      have zero := last 0
      omega
    rw [if_neg more, none]
    by_cases two : 1 < len
    · rw [if_pos two]
      rfl
    · have none : fEcaLog2 (len + 1) - 1 = 0 := by
        have zero := most 0
        omega
      rw [if_neg two, none]
      rfl

end WrCores.Eca.Compact
