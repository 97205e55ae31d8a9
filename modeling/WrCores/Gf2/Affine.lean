import Mathlib.Data.BitVec

/-!
Maps between bit vectors that are affine over the field of two elements: they take the sum
of three vectors to the sum of their values. Networks of exclusive ors are of this kind,
and two such maps are equal if they agree on zero and on the vectors with a single bit.
-/

namespace WrCores.Gf2

variable {n m k l : Nat}

def Affine (f : BitVec n → BitVec m) : Prop :=
  ∀ x y z, f (x ^^^ y ^^^ z) = f x ^^^ f y ^^^ f z

theorem affine_id : Affine (fun x : BitVec n => x) := fun _ _ _ => rfl

theorem affine_const (c : BitVec m) : Affine (fun _ : BitVec n => c) := by
  intro x y z
  simp

theorem Affine.comp {g : BitVec m → BitVec k} {f : BitVec n → BitVec m} (outer : Affine g)
    (inner : Affine f) : Affine (fun x => g (f x)) := by
  intro x y z
  exact (congrArg g (inner x y z)).trans (outer _ _ _)

theorem Affine.xor {f g : BitVec n → BitVec m} (first : Affine f) (second : Affine g) :
    Affine (fun x => f x ^^^ g x) := by
  intro x y z
  simp only [first x y z, second x y z]
  ac_rfl

theorem affine_shift (s : Nat) : Affine (fun x : BitVec n => x >>> s) := by
  intro x y z
  simp only [BitVec.ushiftRight_xor_distrib]

theorem affine_extract (start len : Nat) : Affine (fun x : BitVec n => x.extractLsb' start len) := by
  intro x y z
  simp only [BitVec.extractLsb'_xor]

/-- Clearing the highest bit that may be set leaves one bit less. -/
theorem clear_bit {x : BitVec n} {i : Nat} (above : ∀ j > i, x.getLsbD j = false)
    (set : x.getLsbD i = true) : ∀ j ≥ i, (x ^^^ BitVec.twoPow n i).getLsbD j = false := by
  intro j late
  have inside : i < n := by
    by_contra outside
    rw [BitVec.getLsbD_of_ge x i (by omega)] at set
    exact absurd set (by decide)
  rcases Nat.lt_or_eq_of_le late with more | rfl
  · have apart : i ≠ j := by omega
    simp [above j more, BitVec.getLsbD_twoPow, apart]
  · simp [set, inside]

/-- Affine maps that agree on zero and on every single bit are equal. -/
theorem Affine.ext {f g : BitVec n → BitVec m} (first : Affine f) (second : Affine g)
    (zero : f 0 = g 0) (single : ∀ i < n, f (BitVec.twoPow n i) = g (BitVec.twoPow n i)) (x : BitVec n) :
    f x = g x := by
  have upTo : ∀ k ≤ n, ∀ x : BitVec n, (∀ j ≥ k, x.getLsbD j = false) → f x = g x := by
    intro k
    -- on the number of bits that may be set
    induction k with
    | zero =>
        intro _ x none
        have same : x = 0 := BitVec.eq_of_getLsbD_eq fun i _ => by simpa using none i (Nat.zero_le i)
        rw [same, zero]
    | succ k ih =>
        intro short x above
        by_cases set : x.getLsbD k = true
        · have split : x = (x ^^^ BitVec.twoPow n k) ^^^ BitVec.twoPow n k ^^^ 0 := by
            rw [BitVec.xor_assoc x, BitVec.xor_self]
            simp
          have rest := ih (by omega) _ (clear_bit above set)
          rw [split, first, second, rest, single k (by omega), zero]
        · refine ih (by omega) x fun j late => ?_
          rcases Nat.lt_or_eq_of_le late with more | rfl
          · exact above j more
          · simpa using set
  exact upTo n le_rfl x fun j late => BitVec.getLsbD_of_ge x j late

/-- Maps that are affine in two arguments together. -/
def Affine₂ (f : BitVec n → BitVec k → BitVec m) : Prop :=
  ∀ x y z u v w, f (x ^^^ y ^^^ z) (u ^^^ v ^^^ w) = f x u ^^^ f y v ^^^ f z w

theorem affine₂_fst : Affine₂ (fun (x : BitVec n) (_ : BitVec k) => x) := fun _ _ _ _ _ _ => rfl

theorem Affine.snd {f : BitVec k → BitVec m} (affine : Affine f) :
    Affine₂ (fun (_ : BitVec n) y => f y) :=
  fun _ _ _ u v w => affine u v w

theorem Affine₂.comp {j : Nat} {f : BitVec m → BitVec l → BitVec j} {g : BitVec n → BitVec k → BitVec m}
    {h : BitVec n → BitVec k → BitVec l} (outer : Affine₂ f) (first : Affine₂ g) (second : Affine₂ h) :
    Affine₂ (fun x y => f (g x y) (h x y)) := by
  intro x y z u v w
  simp only [first x y z u v w, second x y z u v w, outer _ _ _ _ _ _]

theorem Affine₂.left {f : BitVec n → BitVec k → BitVec m} (affine : Affine₂ f) :
    Affine (fun x => f x 0) := by
  intro x y z
  simpa using affine x y z 0 0 0

theorem Affine₂.right {f : BitVec n → BitVec k → BitVec m} (affine : Affine₂ f) :
    Affine (fun y => f 0 y) := by
  intro x y z
  simpa using affine 0 0 0 x y z

theorem Affine₂.split {f : BitVec n → BitVec k → BitVec m} (affine : Affine₂ f) (x : BitVec n)
    (y : BitVec k) : f x y = f x 0 ^^^ f 0 y ^^^ f 0 0 := by
  simpa using affine x 0 0 0 y 0

/-- The maps agree on zero and on every single bit of either argument. -/
def Agree₂ (f g : BitVec n → BitVec k → BitVec m) : Prop :=
  f 0 0 = g 0 0 ∧ (∀ i < n, f (BitVec.twoPow n i) 0 = g (BitVec.twoPow n i) 0) ∧
    ∀ i < k, f 0 (BitVec.twoPow k i) = g 0 (BitVec.twoPow k i)

instance (f g : BitVec n → BitVec k → BitVec m) : Decidable (Agree₂ f g) := inferInstanceAs (Decidable (_ ∧ _))

theorem Affine₂.ext {f g : BitVec n → BitVec k → BitVec m} (first : Affine₂ f) (second : Affine₂ g)
    (agree : Agree₂ f g) (x : BitVec n) (y : BitVec k) : f x y = g x y := by
  obtain ⟨zero, left, right⟩ := agree
  rw [first.split, second.split, zero, first.left.ext second.left zero left x,
    first.right.ext second.right zero right y]

/-! ### Networks -/

/-- The vector with the given bits. -/
def ofBits : (n : Nat) → (Nat → Bool) → BitVec n
  | 0, _ => 0#0
  | n + 1, bit => BitVec.cons (bit n) (ofBits n bit)

theorem getLsbD_ofBits (bit : Nat → Bool) (n i : Nat) (inside : i < n) :
    (ofBits n bit).getLsbD i = bit i := by
  induction n with
  | zero => omega
  | succ n ih =>
      rw [ofBits, BitVec.getLsbD_cons]
      split
      case isTrue same => rw [same]
      case isFalse other => exact ih (by omega)

/-- The exclusive or of the bits of `x` at `taps`, each put through `gate`. -/
def tapped (gate : Bool → Bool) (taps : List Nat) (x : BitVec n) : Bool :=
  taps.foldr (fun i acc => (gate (x.getLsbD i)).xor acc) false

theorem tapped_affine (gate : Bool → Bool) (odd : ∀ a b c, gate (a ^^ b ^^ c) = (gate a ^^ gate b ^^ gate c))
    (taps : List Nat) (x y z : BitVec n) :
    tapped gate taps (x ^^^ y ^^^ z) = (tapped gate taps x ^^ tapped gate taps y ^^ tapped gate taps z) := by
  induction taps with
  | nil => rfl
  | cons i rest ih =>
      simp only [tapped, List.foldr_cons] at ih ⊢
      rw [ih, BitVec.getLsbD_xor, BitVec.getLsbD_xor, odd]
      simp only [Bool.xor_assoc, Bool.xor_left_comm]

/-- The exclusive or of `columns` at the bits that are set. -/
def combine (columns : List (BitVec m)) (x : BitVec n) : BitVec m :=
  (columns.zipIdx.map fun p => if x.getLsbD p.2 then p.1 else 0).foldr (· ^^^ ·) 0

theorem combine_affine (columns : List (BitVec m)) : Affine (combine columns : BitVec n → BitVec m) := by
  intro x y z
  simp only [combine]
  induction columns.zipIdx with
  | nil => simp
  | cons p rest ih =>
      have here : (if (x ^^^ y ^^^ z).getLsbD p.2 then p.1 else 0) =
          (if x.getLsbD p.2 then p.1 else 0) ^^^ (if y.getLsbD p.2 then p.1 else 0) ^^^
            (if z.getLsbD p.2 then p.1 else 0) := by
        simp only [BitVec.getLsbD_xor]
        cases x.getLsbD p.2 <;> cases y.getLsbD p.2 <;> cases z.getLsbD p.2 <;> simp
      simp only [List.map_cons, List.foldr_cons, ih, here]
      ac_rfl

end WrCores.Gf2
