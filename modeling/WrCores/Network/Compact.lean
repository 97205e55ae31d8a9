import Mathlib.Data.Nat.Bitwise
import Mathlib.Tactic

/-!
A network of multiplexers that closes gaps. Layer `r` moves a column down by `2 ^ r` places where its control line says
so; the lines stay where they are while the data moves. They are the bits of a number for each column that grows by
at most one from column to column, as the number of gaps below it does. Then a column arrives as many places down
as its number says, and nothing gets in its way.
-/

namespace WrCores.Network

variable {α : Type*}

/-- One layer on `width` columns. What comes from above the last column is undefined. -/
def layer (width : Nat) (control : Nat → Bool) (distance : Nat) (cells : Nat → Option α) (c : Nat) : Option α :=
  if c < width - distance then
    if control (c + distance - 1) then cells (c + distance) else cells c
  else if control (width - 1) then none else cells c

def layers (width : Nat) (control : Nat → Nat → Bool) (cells : Nat → Option α) : Nat → Nat → Option α
  | 0 => cells
  | r + 1 => layer width (control r) (2 ^ r) (layers width control cells r)

/-- The numbers of the columns grow by at most one. -/
def Slow (width : Nat) (count : Nat → Nat) : Prop :=
  ∀ q, q + 1 < width → count q ≤ count (q + 1) ∧ count (q + 1) ≤ count q + 1

theorem Slow.range {width : Nat} {count : Nat → Nat} (slow : Slow width count) {i j : Nat} (order : i ≤ j)
    (inside : j < width) : count i ≤ count j ∧ count j ≤ count i + (j - i) := by
  induction j, order using Nat.le_induction with
  | base => omega
  | succ j order ih =>
      have before := ih (by omega)
      have next := slow j inside
      omega

theorem testBit_of_div {m n r : Nat} (same : m / 2 ^ r = n / 2 ^ r) : m.testBit r = n.testBit r := by
  rw [Nat.testBit_eq_decide_div_mod_eq, Nat.testBit_eq_decide_div_mod_eq, same]

/-- The next multiple of `d` is out of reach. -/
theorem div_of_range {m n d : Nat} (positive : 0 < d) (low : n - n % d ≤ m) (high : m ≤ n + (d - 1 - n % d)) :
    m / d = n / d := by
  have small := Nat.mod_lt n positive
  have whole := Nat.div_add_mod n d
  rw [Nat.div_eq_iff positive]
  rw [Nat.mul_comm] at whole
  constructor <;> omega

theorem mod_next_bit (n r : Nat) : n % 2 ^ (r + 1) = n % 2 ^ r + if n.testBit r then 2 ^ r else 0 := by
  rw [Nat.mod_pow_succ, Nat.testBit_eq_decide_div_mod_eq]
  rcases Nat.mod_two_eq_zero_or_one (n / 2 ^ r) with even | odd
  · simp [even]
  · simp [odd]

section Moves

variable {width depth lowest t x : Nat} {count : Nat → Nat} {control : Nat → Nat → Bool} {cells : Nat → Option α}

/-- One layer on the way: the lines at the column and at the one it may go to both carry its bit. -/
theorem layer_moves {r : Nat} (slow : Slow width count) (lines : ∀ q < width, lowest ≤ q + 1 →
      control r q = (count q).testBit r) (inside : x < width) (here : count x = t)
    (below : 0 < t → count (x - 1) = t) (room : t + lowest ≤ x) {stage : Nat → Option α}
    (arrived : stage (x - t % 2 ^ r) = cells x) :
    layer width (control r) (2 ^ r) stage (x - t % 2 ^ (r + 1)) = cells x := by
  have positive : 0 < 2 ^ r := Nat.two_pow_pos r
  have small := Nat.mod_lt t positive
  have part := Nat.mod_le t (2 ^ r)
  rw [mod_next_bit]
  cases bit : t.testBit r with
  | false =>
      rw [if_neg Bool.false_ne_true, Nat.add_zero]
      have stays : ∀ q, x ≤ q → q ≤ x - t % 2 ^ r + 2 ^ r - 1 → q < width → control r q = false := by
        intro q after reach inside'
        have range := slow.range after inside'
        rw [lines q inside' (by omega), ← bit]
        exact testBit_of_div (div_of_range positive (by omega) (by omega))
      rw [layer]
      split
      next low => rw [stays _ (by omega) le_rfl (by omega), if_neg Bool.false_ne_true, arrived]
      next high => rw [stays (width - 1) (by omega) (by omega) (by omega), if_neg Bool.false_ne_true, arrived]
  | true =>
      rw [if_pos rfl]
      have bound : t % 2 ^ r + 2 ^ r ≤ t := by
        have whole := mod_next_bit t r
        rw [bit, if_pos rfl] at whole
        rw [← whole]
        exact Nat.mod_le _ _
      have source : x - (t % 2 ^ r + 2 ^ r) + 2 ^ r = x - t % 2 ^ r := by omega
      have line : control r (x - (t % 2 ^ r + 2 ^ r) + 2 ^ r - 1) = true := by
        have range := slow.range (i := x - t % 2 ^ r - 1) (j := x - 1) (by omega) (by omega)
        rw [below (by omega)] at range
        rw [source, lines _ (by omega) (by omega), ← bit]
        exact testBit_of_div (div_of_range positive (by omega) (by omega))
      rw [layer, if_pos (by omega), line, if_pos rfl, source, arrived]

theorem layers_moves (cells : Nat → Option α) (slow : Slow width count)
    (lines : ∀ r < depth, ∀ q < width, lowest ≤ q + 1 →
      control r q = (count q).testBit r) (inside : x < width) (here : count x = t)
    (below : 0 < t → count (x - 1) = t) (room : t + lowest ≤ x) {r : Nat} (deep : r ≤ depth) :
    layers width control cells r (x - t % 2 ^ r) = cells x := by
  induction r with
  | zero =>
      rw [Nat.pow_zero, Nat.mod_one, Nat.sub_zero]
      rfl
  | succ r ih => exact layer_moves slow (lines r deep) inside here below room (ih (by omega))

end Moves

section Comes

variable {width depth : Nat} {count : Nat → Nat} {control : Nat → Nat → Bool} {cells : Nat → Option α}

/-- The columns with data have no gap, and not more gaps below them than columns. -/
def Filled (width : Nat) (count : Nat → Nat) (cells : Nat → Option α) : Prop :=
  ∀ x < width, (cells x).isSome = true → count x ≤ x ∧ (0 < count x → count (x - 1) = count x)

/-- What stands in a column came there from a column above with data. -/
def Comes (width : Nat) (count : Nat → Nat) (cells stage : Nat → Option α) (r : Nat) : Prop :=
  ∀ c < width, ∀ v ∈ stage c, ∃ x < width, cells x = some v ∧ c = x - count x % 2 ^ r

theorem Comes.layer {r : Nat} {stage : Nat → Option α} (slow : Slow width count) (filled : Filled width count cells)
    (lines : ∀ q < width, control r q = (count q).testBit r) (comes : Comes width count cells stage r) :
    Comes width count cells (layer width (control r) (2 ^ r) stage) (r + 1) := by
  have positive : 0 < 2 ^ r := Nat.two_pow_pos r
  intro c inside v shown
  have bit (x q : Nat) (order : x ≤ q) (below : q < width) (near : q ≤ x - count x % 2 ^ r + (2 ^ r - 1)) :
      count x % 2 ^ r ≤ x → (count q).testBit r = (count x).testBit r := by
    intro room
    have range := slow.range order below
    have small := Nat.mod_lt (count x) positive
    exact testBit_of_div (div_of_range positive (by omega) (by omega))
  rw [Network.layer] at shown
  by_cases low : c < width - 2 ^ r
  · rw [if_pos low] at shown
    cases line : control r (c + 2 ^ r - 1) with
    | true =>
        rw [line, if_pos rfl] at shown
        obtain ⟨x, bound, data, place⟩ := comes (c + 2 ^ r) (by omega) v shown
        obtain ⟨room, below⟩ := filled x bound (by rw [data]; rfl)
        have part := Nat.mod_le (count x) (2 ^ r)
        refine ⟨x, bound, data, ?_⟩
        have set : (count x).testBit r = true := by
          rw [← line, lines _ (by omega)]
          rcases Nat.eq_zero_or_pos (count x) with zero | some
          · have range := slow.range (i := c + 2 ^ r - 1) (j := x) (by omega) bound
            rw [zero, show count (c + 2 ^ r - 1) = 0 by omega]
          · have range := slow.range (i := c + 2 ^ r - 1) (j := x - 1) (by omega) (by omega)
            rw [below some] at range
            exact testBit_of_div (div_of_range positive (by omega) (by omega)).symm
        rw [mod_next_bit, set, if_pos rfl]
        omega
    | false =>
        rw [line, if_neg Bool.false_ne_true] at shown
        obtain ⟨x, bound, data, place⟩ := comes c inside v shown
        obtain ⟨room, below⟩ := filled x bound (by rw [data]; rfl)
        have part := Nat.mod_le (count x) (2 ^ r)
        have small := Nat.mod_lt (count x) positive
        refine ⟨x, bound, data, ?_⟩
        rw [mod_next_bit, ← bit x (c + 2 ^ r - 1) (by omega) (by omega) (by omega) (by omega), ← lines _ (by omega),
          line, if_neg Bool.false_ne_true]
        exact place
  · rw [if_neg low] at shown
    cases line : control r (width - 1) with
    | true =>
        rw [line, if_pos rfl] at shown
        cases shown
    | false =>
        rw [line, if_neg Bool.false_ne_true] at shown
        obtain ⟨x, bound, data, place⟩ := comes c inside v shown
        obtain ⟨room, below⟩ := filled x bound (by rw [data]; rfl)
        have part := Nat.mod_le (count x) (2 ^ r)
        refine ⟨x, bound, data, ?_⟩
        rw [mod_next_bit, ← bit x (width - 1) (by omega) (by omega) (by omega) (by omega), ← lines _ (by omega),
          line, if_neg Bool.false_ne_true]
        exact place

theorem layers_comes (slow : Slow width count) (filled : Filled width count cells)
    (lines : ∀ r < depth, ∀ q < width, control r q = (count q).testBit r) {r : Nat} (deep : r ≤ depth) :
    Comes width count cells (layers width control cells r) r := by
  induction r with
  | zero =>
      intro c inside v shown
      exact ⟨c, inside, shown, by rw [pow_zero, Nat.mod_one, Nat.sub_zero]⟩
  | succ r ih => exact (ih (by omega)).layer slow filled (lines r deep)

end Comes

end WrCores.Network
