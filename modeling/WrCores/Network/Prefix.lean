import Mathlib.Data.Nat.Prime.Basic
import Mathlib.Data.Nat.Factorization.Basic
import Mathlib.Tactic

/-!
A network that combines each column with all columns before it, in two sweeps. On the way up a column takes in blocks
of doubling size as long as its number, counted from one, is a multiple of the size; on the way down the blocks that
do not begin at the first column are completed. `block` is what a block combines to. Nothing here names a circuit.
-/

namespace WrCores.Network

variable {α : Type*} (op : α → α → α)

/-- The columns from `a` on, `n + 1` of them. -/
def block (x : Nat → α) (a : Nat) : Nat → α
  | 0 => x a
  | n + 1 => op (block x a n) (x (a + (n + 1)))

theorem block_append [assoc : Std.Associative op] (x : Nat → α) (a m n : Nat) :
    op (block op x a m) (block op x (a + (m + 1)) n) = block op x a (m + (n + 1)) := by
  induction n with
  | zero => rfl
  | succ n ih =>
      rw [block, ← assoc.assoc, ih, show m + (n + 1 + 1) = m + (n + 1) + 1 by omega, block]
      congr 2
      omega

/-- A sweep in which some columns take in the one that is `gap` before. -/
def sweep (takes : Nat → Bool) (gap : Nat) (v : Nat → α) (j : Nat) : α :=
  if takes j then op (v (j - gap)) (v j) else v j

def upTakes (len gap j : Nat) : Bool := decide (2 * gap ∣ j + 1 ∧ j < len)

def downTakes (len gap j : Nat) : Bool := decide ((j + 1) % (2 * gap) = gap ∧ gap < j + 1 ∧ j < len)

/-- The rows `0 .. rows - 1` of the way up. -/
def up (len : Nat) (v : Nat → α) : Nat → Nat → α
  | 0 => v
  | row + 1 => sweep op (upTakes len (2 ^ row)) (2 ^ row) (up len v row)

/-- The rows `rows - 1 .. 0` of the way down. -/
def down (len : Nat) : Nat → (Nat → α) → Nat → α
  | 0, v => v
  | row + 1, v => down len row (sweep op (downTakes len (2 ^ row)) (2 ^ row) v)

/-- The column has the block before it whose size is the given power of two, or the largest that divides its number. -/
def Blocks (x v : Nat → α) (len size : Nat) : Prop :=
  ∀ j < len, v j = block op x (j + 1 - Nat.gcd (j + 1) size) (Nat.gcd (j + 1) size - 1)

theorem gcd_twice {n r : Nat} (odd : ¬ 2 ^ (r + 1) ∣ n) : Nat.gcd n (2 ^ (r + 1)) = Nat.gcd n (2 ^ r) := by
  obtain ⟨k, bound, power⟩ := (Nat.dvd_prime_pow Nat.prime_two).1 (Nat.gcd_dvd_right n (2 ^ (r + 1)))
  have less : k ≤ r := by
    by_contra more
    rw [show k = r + 1 by omega] at power
    exact odd (power ▸ Nat.gcd_dvd_left n (2 ^ (r + 1)))
  refine Nat.dvd_antisymm (Nat.dvd_gcd (Nat.gcd_dvd_left ..) ?_)
    (Nat.gcd_dvd_gcd_of_dvd_right _ (Nat.pow_dvd_pow 2 (Nat.le_succ r)))
  rw [power]
  exact Nat.pow_dvd_pow 2 less

variable {op}

theorem blocks_up [Std.Associative op] (x : Nat → α) (len row : Nat) : Blocks op x (up op len x row) len
    (2 ^ row) := by
  induction row with
  | zero =>
      intro j inside
      rw [pow_zero, Nat.gcd_one_right, Nat.add_sub_cancel]
      rfl
  | succ row ih =>
      intro j inside
      rw [up, sweep]
      by_cases takes : 2 ^ (row + 1) ∣ j + 1
      · have positive : 0 < 2 ^ row := Nat.two_pow_pos row
        have double : 2 ^ (row + 1) = 2 ^ row + 2 ^ row := by rw [pow_succ]; omega
        have below := Nat.le_of_dvd (Nat.succ_pos j) takes
        have here : 2 ^ row ∣ j + 1 := (Nat.pow_dvd_pow 2 (Nat.le_succ row)).trans takes
        have before : 2 ^ row ∣ j - 2 ^ row + 1 := by
          rw [show j - 2 ^ row + 1 = j + 1 - 2 ^ row by omega]
          exact Nat.dvd_sub here (Nat.dvd_refl _)
        rw [upTakes, if_pos (decide_eq_true ⟨by rwa [Nat.mul_comm, ← pow_succ], inside⟩), ih _ (by omega),
          ih _ inside,
          Nat.gcd_eq_right before, Nat.gcd_eq_right here, Nat.gcd_eq_right takes,
          show j + 1 - 2 ^ row = j - 2 ^ row + 1 - 2 ^ row + (2 ^ row - 1 + 1) by omega, block_append op]
        congr 1 <;> omega
      · rw [upTakes, if_neg (by rw [decide_eq_true_iff, Nat.mul_comm, ← pow_succ]; exact fun h => takes h.1),
        ih j inside,
          gcd_twice takes]

variable (op) in
/-- The columns whose number is a multiple of `size` are complete, the others still have their blocks. -/
def Completed (x v : Nat → α) (len top size : Nat) : Prop := ∀ j < len, v j =
  if size ∣ j + 1 then block op x 0 j else block op x (j + 1 - Nat.gcd (j + 1) top) (Nat.gcd (j + 1) top - 1)

/-- The blocks at the top are complete when they are made. -/
theorem Blocks.completed {x v : Nat → α} {len rows more : Nat} (blocks : Blocks op x v len (2 ^ more))
    (most : ∀ r, 2 * 2 ^ r ≤ len → r < more) (last : len < 3 * 2 ^ rows) :
    Completed op x v len (2 ^ more) (2 ^ rows) := by
  intro j inside
  rw [blocks j inside]
  split
  next multiple =>
    obtain ⟨k, number⟩ := multiple
    have few : k < 3 := by
      by_contra many
      have := Nat.mul_le_mul_left (2 ^ rows) (Nat.le_of_not_lt many)
      omega
    have power : ∃ e, j + 1 = 2 ^ e := by
      interval_cases k
      · omega
      · exact ⟨rows, by omega⟩
      · exact ⟨rows + 1, by rw [number, pow_succ]⟩
    obtain ⟨e, power⟩ := power
    have divides : j + 1 ∣ 2 ^ more := by
      rw [power]
      refine Nat.pow_dvd_pow 2 ?_
      cases e with
      | zero => exact Nat.zero_le _
      | succ e => exact most e (by rw [Nat.mul_comm, ← pow_succ]; omega)
    rw [Nat.gcd_eq_left divides, Nat.sub_self, Nat.add_sub_cancel]
  next => rfl

theorem Completed.sweep [Std.Associative op] {x v : Nat → α} {len row more : Nat} (below : row ≤ more)
    (completed : Completed op x v len (2 ^ more) (2 ^ (row + 1))) :
    Completed op x (sweep op (downTakes len (2 ^ row)) (2 ^ row) v) len (2 ^ more) (2 ^ row) := by
  have positive : 0 < 2 ^ row := Nat.two_pow_pos row
  have double : 2 ^ (row + 1) = 2 * 2 ^ row := by rw [pow_succ, Nat.mul_comm]
  intro j inside
  rw [Network.sweep]
  by_cases takes : (j + 1) % (2 * 2 ^ row) = 2 ^ row ∧ 2 ^ row < j + 1 ∧ j < len
  · obtain ⟨odd, behind, _⟩ := takes
    have whole := Nat.div_add_mod (j + 1) (2 * 2 ^ row)
    rw [odd] at whole
    have before : 2 ^ (row + 1) ∣ j - 2 ^ row + 1 := ⟨(j + 1) / (2 * 2 ^ row), by rw [double]; omega⟩
    have here : 2 ^ row ∣ j + 1 := ⟨2 * ((j + 1) / (2 * 2 ^ row)) + 1, by
      rw [Nat.mul_add, ← Nat.mul_assoc, Nat.mul_comm (2 ^ row) 2]
      omega⟩
    have notTwice : ¬ 2 ^ (row + 1) ∣ j + 1 := by
      rw [double]
      intro twice
      have := Nat.mod_eq_zero_of_dvd twice
      omega
    have block : Nat.gcd (j + 1) (2 ^ more) = 2 ^ row := by
      have number : j + 1 = 2 ^ row * (2 * ((j + 1) / (2 * 2 ^ row)) + 1) := by
        rw [Nat.mul_add, ← Nat.mul_assoc, Nat.mul_comm (2 ^ row) 2]
        omega
      have apart : Nat.Coprime (2 * ((j + 1) / (2 * 2 ^ row)) + 1) (2 ^ (more - row)) :=
        Nat.Coprime.pow_right _ (Nat.coprime_two_right.2 ⟨_, rfl⟩)
      rw [number, ← Nat.add_sub_cancel' below, pow_add, Nat.gcd_mul_left, apart, Nat.mul_one]
    rw [downTakes, if_pos (decide_eq_true ⟨odd, behind, inside⟩), if_pos here, completed _ (by omega), if_pos before,
      completed j inside, if_neg notTwice, block]
    have joined := block_append op x 0 (j - 2 ^ row) (2 ^ row - 1)
    rw [show 0 + (j - 2 ^ row + 1) = j + 1 - 2 ^ row by omega] at joined
    rw [joined]
    congr 1
    omega
  · rw [downTakes, if_neg (by rwa [decide_eq_true_iff]), completed j inside]
    by_cases twice : 2 ^ (row + 1) ∣ j + 1
    · rw [if_pos twice, if_pos ((Nat.pow_dvd_pow 2 (Nat.le_succ row)).trans twice)]
    rw [if_neg twice]
    split
    next here =>
      have first : j + 1 = 2 ^ row := by
        obtain ⟨k, number⟩ := here
        rcases Nat.even_or_odd' k with ⟨half, rfl | rfl⟩
        · exact absurd ⟨half, by rw [double, Nat.mul_comm 2, Nat.mul_assoc]; exact number⟩ twice
        · have odd : (j + 1) % (2 * 2 ^ row) = 2 ^ row := by
            rw [number, Nat.mul_add, ← Nat.mul_assoc, Nat.mul_comm (2 ^ row) 2, Nat.mul_add_mod, Nat.mul_one]
            exact Nat.mod_eq_of_lt (by omega)
          have least := Nat.le_of_dvd (Nat.succ_pos j) ⟨2 * half + 1, number⟩
          by_contra other
          exact takes ⟨odd, by omega, inside⟩
      rw [first, Nat.gcd_eq_left (Nat.pow_dvd_pow 2 below), Nat.sub_self, ← first, Nat.add_sub_cancel]
    next => rfl

theorem Completed.down [Std.Associative op] {x v : Nat → α} {len rows more : Nat} (below : rows ≤ more)
    (completed : Completed op x v len (2 ^ more) (2 ^ rows)) :
    Completed op x (down op len rows v) len (2 ^ more) 1 := by
  induction rows generalizing v with
  | zero => exact completed
  | succ row ih => exact ih (Nat.le_of_succ_le below) (completed.sweep (Nat.le_of_succ_le below))

/-- The two sweeps together. -/
theorem down_up [Std.Associative op] (x : Nat → α) {len rows more : Nat} (most : ∀ r, r < more ↔ 2 * 2 ^ r ≤ len)
    (last : ∀ r, r < rows ↔ 3 * 2 ^ r ≤ len) {j : Nat} (inside : j < len) :
    down op len rows (up op len x more) j = block op x 0 j := by
  have short : len < 3 * 2 ^ rows := by
    have none := last rows
    omega
  have bounded : rows ≤ more := by
    by_contra less
    have bound := (last more).1 (by omega)
    have more' := (most more).2 (by omega)
    omega
  have blocks : Blocks op x (up op len x more) len (2 ^ more) := blocks_up x len more
  have start := blocks.completed (fun r => (most r).2) short
  rw [start.down bounded j inside, if_pos (Nat.one_dvd _)]

end WrCores.Network
