import WrCores.Gf2.Affine

/-!
ep_crc32_pkg.vhd. Its two functions are networks of exclusive ors with 32 outputs; the
tables list, for the output bits 0 to 31, which bits of the register (inverted) and of the
data go into them. The algebra of the check follows from their values on single bits.
-/

namespace WrCores.Endpoint

open Gf2

def cCrc32ResidueFull : BitVec 32 := 0x1cdf4421
def cCrc32ResidueHalf : BitVec 32 := 0x1df722c6
def cCrc32InitValue : BitVec 32 := 0x00000000

def crc32D16Taps : List (List Nat × List Nat) :=
  [([23, 21, 20, 18, 16, 31, 29, 24], [7, 5, 4, 2, 0, 15, 13, 8]),
   ([22, 21, 19, 18, 17, 16, 31, 28, 25], [6, 5, 3, 2, 1, 0, 15, 12, 9]),
   ([23, 22, 20, 19, 18, 17, 16, 29, 26], [7, 6, 4, 3, 2, 1, 0, 13, 10]),
   ([23, 21, 20, 19, 17, 31, 28, 27, 24], [7, 5, 4, 3, 1, 15, 12, 11, 8]),
   ([22, 21, 20, 16, 31, 30, 29, 25, 24], [6, 5, 4, 0, 15, 14, 13, 9, 8]),
   ([23, 22, 21, 17, 16, 31, 30, 26, 25], [7, 6, 5, 1, 0, 15, 14, 10, 9]),
   ([23, 22, 17, 16, 30, 28, 27, 26], [7, 6, 1, 0, 14, 12, 11, 10]),
   ([23, 17, 30, 29, 27], [7, 1, 14, 13, 11]),
   ([20, 19, 18, 16, 31, 30, 27, 24], [4, 3, 2, 0, 15, 14, 11, 8]),
   ([21, 20, 19, 17, 16, 31, 28, 25, 24], [5, 4, 3, 1, 0, 15, 12, 9, 8]),
   ([22, 21, 20, 18, 17, 16, 29, 26, 25], [6, 5, 4, 2, 1, 0, 13, 10, 9]),
   ([23, 22, 21, 19, 18, 17, 30, 27, 26, 24], [7, 6, 5, 3, 2, 1, 14, 11, 10, 8]),
   ([23, 22, 20, 19, 30, 27, 25, 24], [7, 6, 4, 3, 14, 11, 9, 8]),
   ([23, 21, 20, 18, 30, 26, 25], [7, 5, 4, 2, 14, 10, 9]),
   ([22, 21, 19, 18, 30, 28, 27, 26], [6, 5, 3, 2, 14, 12, 11, 10]),
   ([23, 22, 20, 19, 31, 29, 28, 27], [7, 6, 4, 3, 15, 13, 12, 11]),
   ([0, 23, 22, 17, 30, 26, 24], [7, 6, 1, 14, 10, 8]),
   ([1, 23, 30, 28, 27, 25], [7, 14, 12, 11, 9]),
   ([2, 18, 30, 29, 26], [2, 14, 13, 10]),
   ([3, 19, 31, 30, 27], [3, 15, 14, 11]),
   ([4, 20, 16, 31, 28, 24], [4, 0, 15, 12, 8]),
   ([5, 21, 17, 16, 29, 25, 24], [5, 1, 0, 13, 9, 8]),
   ([6, 22, 18, 17, 30, 26, 25], [6, 2, 1, 14, 10, 9]),
   ([7, 23, 19, 18, 31, 27, 26], [7, 3, 2, 15, 11, 10]),
   ([8, 18, 31, 30, 28, 24], [2, 15, 14, 12, 8]),
   ([9, 19, 16, 31, 29, 25], [3, 0, 15, 13, 9]),
   ([10, 20, 17, 16, 30, 26], [4, 1, 0, 14, 10]),
   ([11, 21, 18, 17, 31, 27], [5, 2, 1, 15, 11]),
   ([12, 22, 19, 18, 16, 28], [6, 3, 2, 0, 12]),
   ([13, 23, 20, 19, 17, 29], [7, 4, 3, 1, 13]),
   ([14, 21, 20, 31, 28, 24], [5, 4, 15, 12, 8]),
   ([15, 22, 21, 16, 29, 25], [6, 5, 0, 13, 9])]

def crc32D8Taps : List (List Nat × List Nat) :=
  [([31, 29, 28, 26, 24], [7, 5, 4, 2, 0]),
   ([30, 29, 27, 26, 25, 24], [6, 5, 3, 2, 1, 0]),
   ([31, 30, 28, 27, 26, 25, 24], [7, 6, 4, 3, 2, 1, 0]),
   ([31, 29, 28, 27, 25], [7, 5, 4, 3, 1]),
   ([30, 29, 28, 24], [6, 5, 4, 0]),
   ([31, 30, 29, 25, 24], [7, 6, 5, 1, 0]),
   ([31, 30, 25, 24], [7, 6, 1, 0]),
   ([31, 25], [7, 1]),
   ([0, 28, 27, 26, 24], [4, 3, 2, 0]),
   ([1, 29, 28, 27, 25, 24], [5, 4, 3, 1, 0]),
   ([2, 30, 29, 28, 26, 25, 24], [6, 5, 4, 2, 1, 0]),
   ([3, 31, 30, 29, 27, 26, 25], [7, 6, 5, 3, 2, 1]),
   ([4, 31, 30, 28, 27], [7, 6, 4, 3]),
   ([5, 31, 29, 28, 26], [7, 5, 4, 2]),
   ([6, 30, 29, 27, 26], [6, 5, 3, 2]),
   ([7, 31, 30, 28, 27], [7, 6, 4, 3]),
   ([8, 31, 30, 25], [7, 6, 1]),
   ([9, 31], [7]),
   ([10, 26], [2]),
   ([11, 27], [3]),
   ([12, 28, 24], [4, 0]),
   ([13, 29, 25, 24], [5, 1, 0]),
   ([14, 30, 26, 25], [6, 2, 1]),
   ([15, 31, 27, 26], [7, 3, 2]),
   ([16, 26], [2]),
   ([17, 27, 24], [3, 0]),
   ([18, 28, 25, 24], [4, 1, 0]),
   ([19, 29, 26, 25], [5, 2, 1]),
   ([20, 30, 27, 26, 24], [6, 3, 2, 0]),
   ([21, 31, 28, 27, 25], [7, 4, 3, 1]),
   ([22, 29, 28], [5, 4]),
   ([23, 30, 29, 24], [6, 5, 0])]

variable {n : Nat}

/-- `q(i) := not ((not d(j)) xor ... xor data_in(k) xor ...)`. -/
def crcNetwork (taps : List (List Nat × List Nat)) (d : BitVec 32) (dataIn : BitVec n) : BitVec 32 :=
  ofBits 32 fun i =>
    let t := taps.getD i ([], [])
    !(tapped (!·) t.1 d ^^ tapped id t.2 dataIn)

def fUpdateCrc32D16 (d : BitVec 32) (dataIn : BitVec 16) : BitVec 32 := crcNetwork crc32D16Taps d dataIn

def fUpdateCrc32D8 (d : BitVec 32) (dataIn : BitVec 8) : BitVec 32 := crcNetwork crc32D8Taps d dataIn

theorem crcNetwork_affine (taps : List (List Nat × List Nat)) :
    Affine₂ (crcNetwork taps : BitVec 32 → BitVec n → BitVec 32) := by
  intro x y z u v w
  have inverted : ∀ a b c : Bool, (!(a ^^ b ^^ c)) = (!a ^^ !b ^^ !c) := by decide
  have plain : ∀ a b c : Bool, id (a ^^ b ^^ c) = (id a ^^ id b ^^ id c) := by decide
  have gathered : ∀ a b c a' b' c' : Bool, (!((a ^^ b ^^ c) ^^ (a' ^^ b' ^^ c'))) =
      ((!(a ^^ a')) ^^ (!(b ^^ b')) ^^ (!(c ^^ c'))) := by decide
  refine BitVec.eq_of_getLsbD_eq fun i inside => ?_
  simp only [crcNetwork, BitVec.getLsbD_xor, getLsbD_ofBits _ _ _ inside]
  rw [tapped_affine _ inverted, tapped_affine _ plain, gathered]

theorem crc32D8_affine : Affine₂ fUpdateCrc32D8 := crcNetwork_affine crc32D8Taps

theorem crc32D16_affine : Affine₂ fUpdateCrc32D16 := crcNetwork_affine crc32D16Taps

/-- A byte at the top of a register. -/
def topByte (x : BitVec 8) : BitVec 32 := x ++ 0#24

theorem topByte_xor (x y : BitVec 8) : topByte (x ^^^ y) = topByte x ^^^ topByte y :=
  (@BitVec.xor_append 8 24 x y 0#24 0#24).symm

/-- What the networks do on single bits: a word is its two bytes, data enters at the top of the register, and what is
below the top byte of the register comes up by a byte. -/
theorem crc32_bits :
    Agree₂ fUpdateCrc32D16
      (fun c word => fUpdateCrc32D8 (fUpdateCrc32D8 c (word.extractLsb' 8 8)) (word.extractLsb' 0 8)) ∧
    Agree₂ fUpdateCrc32D8 (fun c x => fUpdateCrc32D8 (c ^^^ topByte x) 0) ∧
    Agree₂ (fun c w : BitVec 32 => fUpdateCrc32D8 (c ^^^ w >>> 8) 0)
      (fun c w => fUpdateCrc32D8 c 0 ^^^ (w >>> 8) <<< 8) := by
  decide +kernel

/-- A word is its two bytes, the high one first. -/
theorem crc32_halves (c : BitVec 32) (word : BitVec 16) : fUpdateCrc32D16 c word =
    fUpdateCrc32D8 (fUpdateCrc32D8 c (word.extractLsb' 8 8)) (word.extractLsb' 0 8) :=
  crc32D16_affine.ext ((crc32D8_affine.comp (crc32D8_affine.comp affine₂_fst (affine_extract 8 8).snd)
    (affine_extract 0 8).snd)) crc32_bits.1 c word

theorem crc32_word (c : BitVec 32) (hi lo : BitVec 8) :
    fUpdateCrc32D16 c (hi ++ lo) = fUpdateCrc32D8 (fUpdateCrc32D8 c hi) lo := by
  have high : BitVec.extractLsb' (n := 16) 8 8 (hi ++ lo) = hi := BitVec.extractLsb'_append_eq_left
  have low : BitVec.extractLsb' (n := 16) 0 8 (hi ++ lo) = lo := BitVec.extractLsb'_append_eq_right
  rw [crc32_halves, high, low]

/-- Data enters at the top of the register. -/
theorem crc32_enters (c : BitVec 32) (x : BitVec 8) :
    fUpdateCrc32D8 c x = fUpdateCrc32D8 (c ^^^ topByte x) 0 := by
  have top : Affine₂ (fun (c : BitVec 32) (x : BitVec 8) => c ^^^ topByte x) := by
    intro x y z u v w
    simp only [topByte_xor]
    ac_rfl
  exact crc32D8_affine.ext (crc32D8_affine.comp top (affine_const 0).snd) crc32_bits.2.1 c x

/-- The bytes of a register, in the order in which they are sent. -/
def crcBytes (c : BitVec 32) : List (BitVec 8) :=
  [c.extractLsb' 24 8, c.extractLsb' 16 8, c.extractLsb' 8 8, c.extractLsb' 0 8]

theorem crc32_residue_half : fUpdateCrc32D8 cCrc32ResidueFull 0 = cCrc32ResidueHalf := by
  decide

/-- The register before a byte of zeros. -/
def crc32Back (c : BitVec 32) : BitVec 32 :=
  let c := c ^^^ fUpdateCrc32D8 0 0
  combine [0x410671db, 0xc30a936d, 0x861526db, 0x4d2d3d6d, 0x9a5a7ada, 0x75b3856f, 0xea660bdf, 0x95cb6765]
    c ^^^ (c >>> 8)

theorem crc32Back_spec (c : BitVec 32) : crc32Back (fUpdateCrc32D8 c 0) = c := by
  have reduced : Affine (fun c => fUpdateCrc32D8 c 0 ^^^ fUpdateCrc32D8 0 0) :=
    crc32D8_affine.left.xor (affine_const _)
  have back : Affine (fun c => crc32Back (fUpdateCrc32D8 c 0)) :=
    ((combine_affine _).comp reduced).xor ((affine_shift 8).comp reduced)
  exact back.ext affine_id (by decide +kernel) (by decide +kernel) c

/-! ### Runs of bytes -/

theorem crc32_injective {c c' : BitVec 32} {x : BitVec 8}
    (same : fUpdateCrc32D8 c x = fUpdateCrc32D8 c' x) : c = c' := by
  rw [crc32_enters c, crc32_enters c'] at same
  have back := congrArg crc32Back same
  rw [crc32Back_spec, crc32Back_spec] at back
  exact (BitVec.xor_left_inj (topByte x)).1 back

/-- Registers that differ stay so. -/
theorem crc32_fold_injective (bytes : List (BitVec 8)) {c c' : BitVec 32}
    (same : bytes.foldl fUpdateCrc32D8 c = bytes.foldl fUpdateCrc32D8 c') : c = c' := by
  induction bytes generalizing c c' with
  | nil => exact same
  | cons x rest ih => exact crc32_injective (ih same)

/-- What is below the top byte of a register comes up by a byte. -/
theorem crc32_moves (c w : BitVec 32) :
    fUpdateCrc32D8 (c ^^^ w >>> 8) 0 = fUpdateCrc32D8 c 0 ^^^ (w >>> 8) <<< 8 := by
  have below : Affine₂ (fun c w : BitVec 32 => c ^^^ w >>> 8) := by
    intro x y z u v w
    simp only [BitVec.ushiftRight_xor_distrib]
    ac_rfl
  have raised : Affine₂ (fun c w : BitVec 32 => fUpdateCrc32D8 c 0 ^^^ (w >>> 8) <<< 8) := by
    intro x y z u v w
    simp only [crc32D8_affine.left x y z, BitVec.ushiftRight_xor_distrib, BitVec.shiftLeft_xor_distrib]
    ac_rfl
  exact (crc32D8_affine.comp below (affine_const 0).snd).ext raised crc32_bits.2.2 c w

/-- A byte that goes in before the rest of a register. -/
theorem crc32_before (c w : BitVec 32) (x : BitVec 8) (low : (w >>> 8) <<< 8 = w) :
    fUpdateCrc32D8 c x ^^^ w = fUpdateCrc32D8 (c ^^^ (topByte x ^^^ w >>> 8)) 0 := by
  rw [crc32_enters, ← BitVec.xor_assoc, crc32_moves, low]

/-- Bytes that go in one after the other could as well have been in the register. -/
theorem crc32_window (c v : BitVec 32) : (crcBytes v).foldl fUpdateCrc32D8 c =
    (List.replicate 4 0#8).foldl fUpdateCrc32D8 (c ^^^ v) := by
  generalize third : topByte (v.extractLsb' 0 8) = w₀
  generalize second : topByte (v.extractLsb' 8 8) ^^^ w₀ >>> 8 = w₁
  generalize first : topByte (v.extractLsb' 16 8) ^^^ w₁ >>> 8 = w₂
  have low₀ : (w₀ >>> 8) <<< 8 = w₀ := by
    subst third
    ext i inside
    simp [topByte]
    grind
  have low₁ : (w₁ >>> 8) <<< 8 = w₁ := by
    subst second third
    ext i inside
    simp [topByte]
    grind
  have low₂ : (w₂ >>> 8) <<< 8 = w₂ := by
    subst first second third
    ext i inside
    simp [topByte]
    grind
  have whole : topByte (v.extractLsb' 24 8) ^^^ w₂ >>> 8 = v := by
    subst first second third
    ext i inside
    simp [topByte]
    grind
  simp only [crcBytes, List.foldl_cons, List.foldl_nil, List.replicate_succ, List.replicate_zero]
  rw [crc32_enters _ (v.extractLsb' 0 8), third, crc32_before _ _ _ low₀, second, crc32_before _ _ _ low₁, first,
    crc32_before _ _ _ low₂, whole]
  rfl

/-- Behind its own value the register always holds the residue. -/
theorem crc32_residue (c : BitVec 32) : (crcBytes c).foldl fUpdateCrc32D8 c = cCrc32ResidueFull := by
  have first : fUpdateCrc32D8 0#32 0#8 = 2381251282#32 := by decide +kernel
  have second : fUpdateCrc32D8 2381251282#32 0#8 = 4279425345#32 := by decide +kernel
  have third : fUpdateCrc32D8 4279425345#32 0#8 = 316228095#32 := by decide +kernel
  have fourth : fUpdateCrc32D8 316228095#32 0#8 = cCrc32ResidueFull := by decide +kernel
  rw [crc32_window, BitVec.xor_self]
  simp only [List.replicate_succ, List.replicate_zero, List.foldl_cons, List.foldl_nil]
  rw [first, second, third, fourth]

/-- Any four bytes are those of a register. -/
theorem exists_crcBytes {window : List (BitVec 8)} (four : window.length = 4) :
    ∃ v, crcBytes v = window := by
  match window, four with
  | [x₃, x₂, x₁, x₀], _ =>
      have third : BitVec.extractLsb' (n := 32) 24 8 (x₃ ++ x₂ ++ x₁ ++ x₀) = x₃ :=
        (@BitVec.extractLsb'_append_eq_of_le 24 8 (x₃ ++ x₂ ++ x₁) x₀ 24 8 (by omega)).trans
          ((@BitVec.extractLsb'_append_eq_of_le 16 8 (x₃ ++ x₂) x₁ 16 8 (by omega)).trans
            BitVec.extractLsb'_append_eq_left)
      have second : BitVec.extractLsb' (n := 32) 16 8 (x₃ ++ x₂ ++ x₁ ++ x₀) = x₂ :=
        (@BitVec.extractLsb'_append_eq_of_le 24 8 (x₃ ++ x₂ ++ x₁) x₀ 16 8 (by omega)).trans
          ((@BitVec.extractLsb'_append_eq_of_le 16 8 (x₃ ++ x₂) x₁ 8 8 (by omega)).trans
            BitVec.extractLsb'_append_eq_right)
      have first : BitVec.extractLsb' (n := 32) 8 8 (x₃ ++ x₂ ++ x₁ ++ x₀) = x₁ :=
        (@BitVec.extractLsb'_append_eq_of_le 24 8 (x₃ ++ x₂ ++ x₁) x₀ 8 8 (by omega)).trans
          BitVec.extractLsb'_append_eq_right
      have zeroth : BitVec.extractLsb' (n := 32) 0 8 (x₃ ++ x₂ ++ x₁ ++ x₀) = x₀ :=
        BitVec.extractLsb'_append_eq_right
      exact ⟨x₃ ++ x₂ ++ x₁ ++ x₀, by rw [crcBytes, third, second, first, zeroth]⟩

/-- Four bytes that differ leave registers that differ. -/
theorem crc32_four {window window' : List (BitVec 8)} (four : window.length = 4) (four' : window'.length = 4)
    {c : BitVec 32} (same : window.foldl fUpdateCrc32D8 c = window'.foldl fUpdateCrc32D8 c) :
    window = window' := by
  obtain ⟨v, rfl⟩ := exists_crcBytes four
  obtain ⟨v', rfl⟩ := exists_crcBytes four'
  rw [crc32_window, crc32_window] at same
  rw [(BitVec.xor_right_inj c).1 (crc32_fold_injective _ same)]

end WrCores.Endpoint
