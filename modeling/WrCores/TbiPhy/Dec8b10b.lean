import WrCores.TbiPhy.Enc8b10b

/-!
dec_8b10b.vhd. The input register has the bits of a group in the order of the tables, the bit that came
first on the left. The outputs of a group are in their registers two cycles after the group was at the input.
-/

namespace WrCores.TbiPhy

open Clocked

/-- A group in the order of the tables, `a` to `j` from bit 9 down. -/
abbrev Group := BitVec 10

namespace Group

variable (x : Group)

def abcd : BitVec 4 := x.extractLsb' 6 4

def ei : BitVec 2 := x.extractLsb' 4 2

def fghj : BitVec 4 := x.extractLsb' 0 4

def fgh : BitVec 3 := x.extractLsb' 1 3

def fg : BitVec 2 := x.extractLsb' 2 2

def cde : BitVec 3 := x.extractLsb' 5 3

def cdei : BitVec 4 := x.extractLsb' 4 4

def dei : BitVec 3 := x.extractLsb' 4 3

def eifgh : BitVec 5 := x.extractLsb' 1 5

def eifghj : BitVec 6 := x.extractLsb' 0 6

def eighj : BitVec 5 := x.ei ++ x.extractLsb' 0 3

def in6b : BitVec 6 := x.extractLsb' 4 6

def p13 : Bool := x.abcd = 0b0001 ∨ x.abcd = 0b0010 ∨ x.abcd = 0b0100 ∨ x.abcd = 0b1000

def p31 : Bool := x.abcd = 0b1110 ∨ x.abcd = 0b1101 ∨ x.abcd = 0b1011 ∨ x.abcd = 0b0111

/-- `code_err_o` of dec_8b10b_ctrl: `s_err1` to `s_err14`, a line each. -/
def ctrlErr : Bool :=
  decide (x.abcd = 0b0000 ∨ x.abcd = 0b1111)
    || decide (x.ei = 0b00) && x.p13
    || decide (x.ei = 0b11) && x.p31
    || decide (x.fghj = 0b0000 ∨ x.fghj = 0b1111)
    || decide (x.eifgh = 0b00000 ∨ x.eifgh = 0b11111)
    || decide (x.eighj = 0b10111 ∨ x.eighj = 0b01000)
    || decide (x.eighj = 0b00111 ∧ x.cde ≠ 0b000 ∧ x.cde ≠ 0b111)
    || decide (x.eighj = 0b11000 ∧ x.cde ≠ 0b000 ∧ x.cde ≠ 0b111)
    || decide (x.eighj = 0b10000) && !x.p31
    || decide (x.eighj = 0b01111) && !x.p13
    || decide (x = 0b0011110001#10 ∨ x = 0b1100001110#10)
    || decide (x.cdei = 0b0000 ∧ x.fg = 0b00)
    || decide (x.cdei = 0b1111 ∧ x.fg = 0b11)
    || decide (x.dei = 0b000 ∧ x.fgh = 0b000)
    || decide (x.dei = 0b111 ∧ x.fgh = 0b111)

/-- `ctrl_o` of dec_8b10b_ctrl: K28.x, and K23, K27, K29, K30 of either disparity. -/
def isCtrl : Bool :=
  decide (x.cdei = 0b0000 ∨ x.cdei = 0b1111)
    || decide (x.eifghj = 0b010111) && x.p13
    || decide (x.eifghj = 0b101000) && x.p31

/-- `f_cnt4bit`: the ones, in four bits. -/
def disp : BitVec 4 :=
  (List.finRange 10).foldl (fun count i => if x.getLsb i then count + 1 else count) 0

/-- `disp_err_o` of dec_8b10b_disp. -/
def dispErr : Bool :=
  decide (x.in6b ∈ [0b000001#6, 0b000010, 0b000100, 0b001000, 0b010000, 0b100000,
      0b011111, 0b101111, 0b110111, 0b111011, 0b111101, 0b111110, 0b111111, 0b000000])
    || decide (x.fghj = 0b0000 ∨ x.fghj = 0b1111)

/-- `dec_4b_lut`. K28.x of the positive disparity has the inverted four bits. -/
def out3b : BitVec 3 :=
  if x.fghj = 0b1011 ∨ x.fghj = 0b0100 then 0b000
  else if x.fghj = 0b1001 then if x.in6b = 0b110000 then 0b110 else 0b001
  else if x.fghj = 0b0101 then if x.in6b = 0b110000 then 0b101 else 0b010
  else if x.fghj = 0b1100 ∨ x.fghj = 0b0011 then 0b011
  else if x.fghj = 0b1101 ∨ x.fghj = 0b0010 then 0b100
  else if x.fghj = 0b1010 then if x.in6b = 0b110000 then 0b010 else 0b101
  else if x.fghj = 0b0110 then if x.in6b = 0b110000 then 0b001 else 0b110
  else if x.fghj = 0b1110 ∨ x.fghj = 0b0001 then 0b111
  else if x.fghj = 0b1000 ∨ x.fghj = 0b0111 then 0b111
  else 0b000

/-- The lines of `dec_6b_lut`, D0.x to D31.x and K28.x. -/
def lut6b : List (List (BitVec 6) × BitVec 5) :=
  [([0b100111, 0b011000], 0b00000),
   ([0b011101, 0b100010], 0b00001),
   ([0b101101, 0b010010], 0b00010),
   ([0b110001], 0b00011),
   ([0b110101, 0b001010], 0b00100),
   ([0b101001], 0b00101),
   ([0b011001], 0b00110),
   ([0b111000, 0b000111], 0b00111),
   ([0b111001, 0b000110], 0b01000),
   ([0b100101], 0b01001),
   ([0b010101], 0b01010),
   ([0b110100], 0b01011),
   ([0b001101], 0b01100),
   ([0b101100], 0b01101),
   ([0b011100], 0b01110),
   ([0b010111, 0b101000], 0b01111),
   ([0b011011, 0b100100], 0b10000),
   ([0b100011], 0b10001),
   ([0b010011], 0b10010),
   ([0b110010], 0b10011),
   ([0b001011], 0b10100),
   ([0b101010], 0b10101),
   ([0b011010], 0b10110),
   ([0b111010, 0b000101], 0b10111),
   ([0b110011, 0b001100], 0b11000),
   ([0b100110], 0b11001),
   ([0b010110], 0b11010),
   ([0b110110, 0b001001], 0b11011),
   ([0b001110], 0b11100),
   ([0b101110, 0b010001], 0b11101),
   ([0b011110, 0b100001], 0b11110),
   ([0b101011, 0b010100], 0b11111),
   ([0b001111, 0b110000], 0b11100)]

def out5b : BitVec 5 := ((lut6b.find? fun line => x.in6b ∈ line.1).map Prod.snd).getD 0

def out8b : BitVec 8 := x.out3b ++ x.out5b

/-- `rdisp_err_o` of dec_8b10b_disp. -/
def rdispErr : Disparity → Bool
  | .rdMinus => !decide (x.disp = 0b0110 ∨ x.disp = 0b0101)
  | .rdPlus => !decide (x.disp = 0b0100 ∨ x.disp = 0b0101)

/-- The next `s_RunDisp` of dec_8b10b_disp. -/
def nextDisp : Disparity → Disparity
  | .rdMinus => if x.disp = 0b0110 then .rdPlus else .rdMinus
  | .rdPlus => if x.disp = 0b0100 then .rdMinus else .rdPlus

end Group

/-- What the ports of the decoder show in one cycle. -/
structure Mark where
  ctrl : Bool
  byte : BitVec 8
  codeErr : Bool
  rdispErr : Bool
  deriving DecidableEq, Repr

/-- The outputs for a group when the running disparity is `rd`. -/
def Group.mark (rd : Disparity) (x : Group) : Mark where
  ctrl := x.isCtrl
  byte := x.out8b
  codeErr := x.ctrlErr || x.dispErr
  rdispErr := x.rdispErr rd

/-- The registers after reset. -/
structure Dec where
  in10b : Group := 0b1110101000
  outReg : Mark := ⟨true, 0b11110111, false, false⟩
  runDisp : Disparity := .rdPlus
  deriving DecidableEq, Repr

namespace Dec

/-- The first bit of the line comes at index 0 of the port. -/
def step (s : Dec) (in10b : BitVec 10) : Dec where
  in10b := in10b.reverse
  outReg := s.in10b.mark s.runDisp
  runDisp := s.in10b.nextDisp s.runDisp

/-- What the ports show for the groups: two cycles after each. -/
def received (groups : List (BitVec 10)) (next afterNext : BitVec 10) : List Mark :=
  (collect step (fun s _ => [s.outReg]) {} (groups ++ [next, afterNext])).drop 2

/-- The marks one by one, each with the disparity that the last group left. -/
def marks : Disparity → List (BitVec 10) → List Mark
  | _, [] => []
  | rd, x :: rest => Group.mark rd x.reverse :: marks (Group.nextDisp x.reverse rd) rest

end Dec

end WrCores.TbiPhy
