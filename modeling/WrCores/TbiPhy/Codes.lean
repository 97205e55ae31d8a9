import Mathlib.Tactic
import WrCores.TbiPhy.Dec8b10b

/-!
One group between the encoder and the decoder: what its bits carry, what it decodes to, and what a decoder of
the other disparity makes of it.
-/

namespace WrCores.TbiPhy

open Clocked

/-- The running disparity as a number. -/
def Disparity.level : Disparity → ℤ
  | .rdMinus => -1
  | .rdPlus => 1

def ones (x : BitVec 10) : Nat := (List.finRange 10).countP fun i => x.getLsb i

def Unbalanced (x : BitVec 10) : Prop := ones x ≠ 5

instance (x : BitVec 10) : Decidable (Unbalanced x) := inferInstanceAs (Decidable (_ ≠ _))

/-- The group as it arrives when its bit `j` is inverted. -/
def invert (j : Fin 10) (x : BitVec 10) : BitVec 10 := x ^^^ BitVec.twoPow 10 j

namespace Codes

theorem ones_sum (x : BitVec 10) : ones x =
    x[0].toNat + x[1].toNat + x[2].toNat + x[3].toNat + x[4].toNat + x[5].toNat + x[6].toNat + x[7].toNat
      + x[8].toNat + x[9].toNat := by
  have table : List.finRange 10 = [0, 1, 2, 3, 4, 5, 6, 7, 8, 9] := by decide
  have count : ∀ (l : List (Fin 10)), l.countP (fun i => x.getLsb i) = (l.map fun i => (x.getLsb i).toNat).sum := by
    intro l
    induction l with
    | nil => rfl
    | cons i rest ih =>
        rw [List.countP_cons, List.map_cons, List.sum_cons, ih]
        cases x.getLsb i <;> simp [Nat.add_comm]
  rw [ones, count, table]
  simp [BitVec.getLsb_eq_getElem]
  omega

theorem ones_reverse (x : BitVec 10) : ones x.reverse = ones x := by
  have mirrored : ∀ i (low : i < 10), x.reverse[i] = x[9 - i] := by
    intro i low
    rw [BitVec.getElem_reverse, BitVec.getMsbD_eq_getLsbD, BitVec.getLsbD_eq_getElem (by omega)]
    simp [low]
  simp only [ones_sum, mirrored, Nat.reduceSub]
  omega

theorem ones_invert (j : Fin 10) (x : BitVec 10) :
    ones (invert j x) = ones x + 1 ∨ ones x = ones (invert j x) + 1 := by
  have flipped : ∀ b : Bool, (!b).toNat = 1 - b.toNat := by decide
  have bit : ∀ b : Bool, b.toNat ≤ 1 := by decide
  simp only [ones_sum, invert, BitVec.getElem_xor, BitVec.getElem_twoPow]
  fin_cases j <;> simp [flipped] <;> grind

/-- The counter of the decoder has room for all the ones. -/
theorem disp_reverse (x : BitVec 10) : Group.disp x.reverse = BitVec.ofNat 4 (ones x) := by
  have count : ∀ (l : List (Fin 10)) (y : BitVec 10) (c : BitVec 4),
      l.foldl (fun count i => if y.getLsb i then count + 1 else count) c =
        c + BitVec.ofNat 4 (l.countP fun i => y.getLsb i) := by
    intro l y
    induction l with
    | nil =>
        intro c
        simp
    | cons i rest ih =>
        intro c
        rw [List.foldl_cons, ih, List.countP_cons]
        cases y.getLsb i
        · simp
        · simp [BitVec.ofNat_add, BitVec.add_assoc, BitVec.add_comm]
  rw [← ones_reverse, Group.disp, count, ones]
  exact BitVec.zero_add _

theorem ones_le (x : BitVec 10) : ones x ≤ 10 := by
  have bound := List.countP_le_length (p := fun i => x.getLsb i) (l := List.finRange 10)
  rwa [List.length_finRange] at bound

theorem disp_eq (x : BitVec 10) (n : Nat) (small : n < 16) :
    Group.disp x.reverse = BitVec.ofNat 4 n ↔ ones x = n := by
  have bound := ones_le x
  rw [disp_reverse]
  constructor
  · intro same
    have values := congrArg BitVec.toNat same
    simp only [BitVec.toNat_ofNat] at values
    omega
  · intro same
    rw [same]

theorem nextDisp_reverse (x : BitVec 10) (rd : Disparity) :
    Group.nextDisp x.reverse rd = if ones x = 6 then .rdPlus else if ones x = 4 then .rdMinus else rd := by
  have six := disp_eq x 6 (by decide)
  have four := disp_eq x 4 (by decide)
  cases rd <;> simp only [Group.nextDisp] <;> grind

theorem rdispErr_reverse (x : BitVec 10) (rd : Disparity) :
    Group.rdispErr x.reverse rd = false ↔
      ones x = 5 ∨ rd = .rdMinus ∧ ones x = 6 ∨ rd = .rdPlus ∧ ones x = 4 := by
  have six := disp_eq x 6 (by decide)
  have five := disp_eq x 5 (by decide)
  have four := disp_eq x 4 (by decide)
  cases rd <;> simp only [Group.rdispErr] <;> grind

/-- A group of the encoder: it decodes to its symbol, and its bits carry the disparity on. -/
structure Sound (s : Symbol) (rd : Disparity) : Prop where
  ctrl : Group.isCtrl (s.code rd).reverse = s.ctrl
  byte : Group.out8b (s.code rd).reverse = s.byte
  noErr : (Group.ctrlErr (s.code rd).reverse || Group.dispErr (s.code rd).reverse) = false
  carried : rd.level + (2 * (ones (s.code rd) : ℤ) - 10) = (s.nextDisp rd).level

/-- The six bits that are sent first, for an index of the table and in the order of the table. -/
def first6 (ind5b : Nat) : Disparity → BitVec 6
  | .rdMinus => cEnc5b6bTable.getD ind5b 0
  | .rdPlus =>
      if cDisPar6b.getMsbD ind5b = true ∨ cEnc5b6bTable.getD ind5b 0 = 0b111000 then
        ~~~cEnc5b6bTable.getD ind5b 0
      else cEnc5b6bTable.getD ind5b 0

/-- The four bits behind them. -/
def last4 (s : Symbol) : Disparity → BitVec 4
  | .rdMinus =>
      if s.dP4bit = s.dP6bit then if s.dP6bit then ~~~s.val4bit else s.val4bit
      else if s.dP4bit then
        if s.val6bit.extractLsb' 0 3 = 0b011 ∧ s.val4bit.extractLsb' 1 3 = 0b111 then 0b0111 else s.val4bit
      else if s.val4bit = 0b1100 then ~~~s.val4bit else s.val4bit
  | .rdPlus =>
      if s.dP6bit then s.val4bit
      else if s.dP4bit then
        if s.val6bit.extractLsb' 0 3 = 0b100 ∧ s.val4bit.extractLsb' 1 3 = 0b111 then 0b1000 else ~~~s.val4bit
      else if s.val4bit = 0b1100 then ~~~s.val4bit else s.val4bit

def line (s : Symbol) (rd : Disparity) : Group := first6 s.ind5b rd ++ last4 s rd

theorem low6_reverse (s : Symbol) (rd : Disparity) : (s.low6 rd).reverse = first6 s.ind5b rd := by
  cases rd with
  | rdMinus => simp only [Symbol.low6, Symbol.val6bit, first6, BitVec.reverse_reverse_eq]
  | rdPlus =>
      simp only [Symbol.low6, apply_ite BitVec.reverse, BitVec.reverse_reverse_eq]
      rfl

theorem high4_reverse (s : Symbol) (rd : Disparity) : (s.high4 rd).reverse = last4 s rd := by
  cases rd with
  | rdMinus =>
      simp only [Symbol.high4, last4]
      split_ifs <;> first | decide | simp only [BitVec.reverse_reverse_eq]
  | rdPlus =>
      simp only [Symbol.high4, last4]
      split_ifs <;> first | decide | simp only [BitVec.reverse_reverse_eq]

theorem code_reverse (byte : BitVec 8) (rd : Disparity) :
    (Symbol.code ⟨false, byte⟩ rd).reverse = line ⟨false, byte⟩ rd := by
  have plain : Symbol.code ⟨false, byte⟩ rd = Symbol.high4 ⟨false, byte⟩ rd ++ Symbol.low6 ⟨false, byte⟩ rd := rfl
  rw [plain, BitVec.reverse_append, low6_reverse, high4_reverse]
  rfl

theorem in6b_line (s : Symbol) (rd : Disparity) : (line s rd).in6b = first6 s.ind5b rd :=
  BitVec.extractLsb'_append_eq_left

/-- The five low bits of a byte depend on the first six of its group only. -/
theorem six_sound : ∀ n : Fin 32, ∀ rd : Bool,
    let six := first6 n (if rd then .rdPlus else .rdMinus)
    ((Group.lut6b.find? fun l => six ∈ l.1).map Prod.snd).getD 0 = BitVec.ofFin n ∧
      six ∉ [0b000001#6, 0b000010, 0b000100, 0b001000, 0b010000, 0b100000,
        0b011111, 0b101111, 0b110111, 0b111011, 0b111101, 0b111110, 0b111111, 0b000000] := by
  decide +kernel

/-- What is left depends on all the bits of a data byte. -/
structure DataSound (s : Symbol) (rd : Disparity) : Prop where
  ctrl : (line s rd).isCtrl = false
  byte : (line s rd).out3b = s.byte.extractLsb' 5 3
  noErr : (line s rd).ctrlErr = false
  carried : rd.level + (2 * (ones (line s rd) : ℤ) - 10) = (s.nextDisp rd).level

instance (s : Symbol) (rd : Disparity) : Decidable (DataSound s rd) :=
  decidable_of_iff
    ((line s rd).isCtrl = false ∧ (line s rd).out3b = s.byte.extractLsb' 5 3 ∧ (line s rd).ctrlErr = false ∧
      rd.level + (2 * (ones (line s rd) : ℤ) - 10) = (s.nextDisp rd).level)
    ⟨fun h => ⟨h.1, h.2.1, h.2.2.1, h.2.2.2⟩, fun h => ⟨h.1, h.2, h.3, h.4⟩⟩

theorem data_minus : ∀ x : Fin 256, DataSound ⟨false, BitVec.ofFin x⟩ .rdMinus := by
  decide +kernel

theorem data_plus : ∀ x : Fin 256, DataSound ⟨false, BitVec.ofFin x⟩ .rdPlus := by
  decide +kernel

theorem dispErr_data (s : Symbol) (rd : Disparity) (noErr : (line s rd).ctrlErr = false) :
    (line s rd).dispErr = false := by
  have six := six_sound ⟨s.ind5b, (s.byte.extractLsb' 0 5).isLt⟩ (decide (rd = .rdPlus))
  have four : ¬((line s rd).fghj = 0b0000 ∨ (line s rd).fghj = 0b1111) := by
    intro same
    rw [Group.ctrlErr, decide_eq_true same] at noErr
    simp at noErr
  rw [Group.dispErr, in6b_line, decide_eq_false four, Bool.or_false, decide_eq_false_iff_not]
  cases rd with
  | rdMinus => exact six.2
  | rdPlus => exact six.2

theorem out8b_data (s : Symbol) (rd : Disparity) (high : (line s rd).out3b = s.byte.extractLsb' 5 3) :
    (line s rd).out8b = s.byte := by
  have six := six_sound ⟨s.ind5b, (s.byte.extractLsb' 0 5).isLt⟩ (decide (rd = .rdPlus))
  have low : (line s rd).out5b = s.byte.extractLsb' 0 5 := by
    rw [Group.out5b, in6b_line]
    cases rd with
    | rdMinus => exact six.1
    | rdPlus => exact six.1
  rw [Group.out8b, high, low]
  exact BitVec.extractLsb'_append_extractLsb'

theorem data_sound (byte : BitVec 8) (rd : Disparity) : Sound ⟨false, byte⟩ rd := by
  have sound : DataSound ⟨false, byte⟩ rd := by
    cases rd with
    | rdMinus => exact data_minus byte.toFin
    | rdPlus => exact data_plus byte.toFin
  constructor
  · rw [code_reverse]
    exact sound.ctrl
  · rw [code_reverse]
    exact out8b_data _ _ sound.byte
  · rw [code_reverse, sound.noErr, dispErr_data _ _ sound.noErr]
    rfl
  · rw [← ones_reverse, code_reverse]
    exact sound.carried

/-- The control characters have a code of their own each. -/
theorem ctrl_sound (byte : BitVec 8) (accepted : (Symbol.mk true byte).ctrlCode ≠ none) (rd : Disparity) :
    Sound ⟨true, byte⟩ rd := by
  have twelve : byte ∈ [0b00011100#8, 0b00111100#8, 0b01011100#8, 0b01111100#8, 0b10011100#8, 0b10111100#8,
      0b11011100#8, 0b11111100#8, 0b11110111#8, 0b11111011#8, 0b11111101#8, 0b11111110#8] := by
    by_contra other
    simp only [List.mem_cons, List.not_mem_nil, or_false, not_or] at other
    simp [Symbol.ctrlCode, other] at accepted
  simp only [List.mem_cons, List.not_mem_nil, or_false] at twelve
  rcases twelve with rfl | rfl | rfl | rfl | rfl | rfl | rfl | rfl | rfl | rfl | rfl | rfl <;>
    cases rd <;> constructor <;> decide

theorem sound (s : Symbol) (valid : s.Valid) (rd : Disparity) : Sound s rd := by
  obtain ⟨ctrl, byte⟩ := s
  cases ctrl with
  | false => exact data_sound byte rd
  | true => exact ctrl_sound byte (valid rfl) rd

/-- An encoder of either disparity sends six ones to go up, four to go down and five to stay. -/
theorem ones_code (s : Symbol) (valid : s.Valid) (rd : Disparity) :
    (ones (s.code rd) = 5 ∧ s.nextDisp rd = rd) ∨
      (ones (s.code rd) = 6 ∧ rd = .rdMinus ∧ s.nextDisp rd = .rdPlus) ∨
      (ones (s.code rd) = 4 ∧ rd = .rdPlus ∧ s.nextDisp rd = .rdMinus) := by
  have carried := (sound s valid rd).carried
  revert carried
  cases rd <;> cases s.nextDisp _ <;> simp [Disparity.level] <;> omega

/-- A decoder of the disparity of the encoder follows it and sees nothing. -/
theorem follows (s : Symbol) (valid : s.Valid) (rd : Disparity) :
    Group.mark rd (s.code rd).reverse = ⟨s.ctrl, s.byte, false, false⟩ ∧
      Group.nextDisp (s.code rd).reverse rd = s.nextDisp rd := by
  have fine := sound s valid rd
  have count := ones_code s valid rd
  have quiet : Group.rdispErr (s.code rd).reverse rd = false := by
    rw [rdispErr_reverse]
    grind
  refine ⟨?_, ?_⟩
  · rw [Group.mark, fine.ctrl, fine.byte, fine.noErr, quiet]
  · rw [nextDisp_reverse]
    grind

/-- A decoder of the other disparity does so too from the first unbalanced group on, which it reports. -/
theorem meets (s : Symbol) (valid : s.Valid) (rd other : Disparity) (apart : other ≠ rd) :
    (ones (s.code rd) = 5 ∧ s.nextDisp rd = rd ∧ Group.nextDisp (s.code rd).reverse other = other) ∨
      (Unbalanced (s.code rd) ∧ Group.rdispErr (s.code rd).reverse other = true ∧
        Group.nextDisp (s.code rd).reverse other = s.nextDisp rd) := by
  have count := ones_code s valid rd
  have report := rdispErr_reverse (s.code rd) other
  rw [nextDisp_reverse, Unbalanced]
  cases other <;> cases rd <;> grind

end Codes

end WrCores.TbiPhy
