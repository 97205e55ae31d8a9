import Mathlib.Data.BitVec
import WrCores.Clocked.Run

/-!
enc_8b10b.vhd. The tables have the bits of a code in the order in which they are sent; the output has the
bit that is sent first at index 0. A symbol is in the input register for one cycle and its group in the
output register in the next one.
-/

namespace WrCores.TbiPhy

open Clocked

/-- `t_state_type`, and `t_8b10b_disparity` of disparity_gen_pkg.vhd. -/
inductive Disparity where
  | rdMinus
  | rdPlus
  deriving DecidableEq, Repr

structure Symbol where
  ctrl : Bool
  byte : BitVec 8
  deriving DecidableEq, Repr

def cEnc5b6bTable : List (BitVec 6) :=
  [0b100111, 0b011101, 0b101101, 0b110001, 0b110101, 0b101001, 0b011001, 0b111000,
   0b111001, 0b100101, 0b010101, 0b110100, 0b001101, 0b101100, 0b011100, 0b010111,
   0b011011, 0b100011, 0b010011, 0b110010, 0b001011, 0b101010, 0b011010, 0b111010,
   0b110011, 0b100110, 0b010110, 0b110110, 0b001110, 0b101110, 0b011110, 0b101011]

/-- Index 0 is the leftmost bit. -/
def cDisPar6b : BitVec 32 := 0b11101000100000011000000110010111

def cEnc3b4bTable : List (BitVec 4) := [0b1011, 0b1001, 0b0101, 0b1100, 0b1101, 0b1010, 0b0110, 0b1110]

def cDisPar4b : BitVec 8 := 0b10001001

namespace Symbol

variable (s : Symbol)

def ind5b : Nat := (s.byte.extractLsb' 0 5).toNat

def ind3b : Nat := (s.byte.extractLsb' 5 3).toNat

def val6bit : BitVec 6 := cEnc5b6bTable.getD s.ind5b 0

def val4bit : BitVec 4 := cEnc3b4bTable.getD s.ind3b 0

def dP6bit : Bool := cDisPar6b.getMsbD s.ind5b

def dP4bit : Bool := cDisPar4b.getMsbD s.ind3b

/-- The code of a control character, or none. -/
def ctrlCode : Option (BitVec 10) :=
  if s.byte = 0b00011100 then some (0b0011110100#10).reverse
  else if s.byte = 0b00111100 then some (0b0011111001#10).reverse
  else if s.byte = 0b01011100 then some (0b0011110101#10).reverse
  else if s.byte = 0b01111100 then some (0b0011110011#10).reverse
  else if s.byte = 0b10011100 then some (0b0011110010#10).reverse
  else if s.byte = 0b10111100 then some (0b0011111010#10).reverse
  else if s.byte = 0b11011100 then some (0b0011110110#10).reverse
  else if s.byte = 0b11111100 then some (0b0011111000#10).reverse
  else if s.byte = 0b11110111 then some (0b1110101000#10).reverse
  else if s.byte = 0b11111011 then some (0b1101101000#10).reverse
  else if s.byte = 0b11111101 then some (0b1011101000#10).reverse
  else if s.byte = 0b11111110 then some (0b0111101000#10).reverse
  else none

/-- A data byte or one of the twelve control characters. -/
def Valid : Prop := s.ctrl = true → s.ctrlCode ≠ none

instance : Decidable s.Valid := inferInstanceAs (Decidable (_ → _))

/-- `s_err`. -/
def err : Bool := s.ctrl && s.ctrlCode.isNone

/-- The bits 9 to 6 of a data code. -/
def high4 : Disparity → BitVec 4
  | .rdMinus =>
      if s.dP4bit = s.dP6bit then if s.dP6bit then (~~~s.val4bit).reverse else s.val4bit.reverse
      else if s.dP4bit then
        if s.val6bit.extractLsb' 0 3 = 0b011 ∧ s.val4bit.extractLsb' 1 3 = 0b111 then 0b1110 else s.val4bit.reverse
      else if s.val4bit = 0b1100 then (~~~s.val4bit).reverse else s.val4bit.reverse
  | .rdPlus =>
      if s.dP6bit then s.val4bit.reverse
      else if s.dP4bit then
        if s.val6bit.extractLsb' 0 3 = 0b100 ∧ s.val4bit.extractLsb' 1 3 = 0b111 then 0b0001
        else (~~~s.val4bit).reverse
      else if s.val4bit = 0b1100 then (~~~s.val4bit).reverse else s.val4bit.reverse

/-- The bits 5 to 0 of a data code. -/
def low6 : Disparity → BitVec 6
  | .rdMinus => s.val6bit.reverse
  | .rdPlus => if s.dP6bit ∨ s.val6bit = 0b111000 then (~~~s.val6bit).reverse else s.val6bit.reverse

/-- `s_out_10b`. -/
def code (rd : Disparity) : BitVec 10 :=
  if s.ctrl then
    match rd with
    | .rdMinus => s.ctrlCode.getD 0
    | .rdPlus => ~~~s.ctrlCode.getD 0
  else s.high4 rd ++ s.low6 rd

def flip : Disparity → Disparity
  | .rdMinus => .rdPlus
  | .rdPlus => .rdMinus

/-- The next `s_RunDisp`. -/
def nextDisp (rd : Disparity) : Disparity :=
  if s.byte.extractLsb' 0 2 ≠ 0 ∧ s.ctrl = true then rd
  else if (s.ctrl ^^ s.dP6bit ^^ s.dP4bit) = true then flip rd
  else rd

end Symbol

/-- The registers after reset. -/
structure Enc where
  ctrlReg : Bool := false
  in8bReg : BitVec 8 := 0
  disparReg : Bool := false
  errReg : Bool := false
  out10bReg : BitVec 10 := 0
  runDisp : Disparity := .rdMinus
  deriving DecidableEq, Repr

namespace Enc

def symbol (s : Enc) : Symbol := ⟨s.ctrlReg, s.in8bReg⟩

def step (s : Enc) (i : Symbol) : Enc where
  ctrlReg := i.ctrl
  in8bReg := i.byte
  disparReg := decide (s.runDisp = .rdPlus)
  errReg := s.symbol.err
  out10bReg := s.symbol.code s.runDisp
  runDisp := s.symbol.nextDisp s.runDisp

/-- The groups of the symbols: they leave two cycles later, behind the reset value of the output and the
group of the reset value of the input. -/
def sent (symbols : List Symbol) (next afterNext : Symbol) : List (BitVec 10) :=
  (collect step (fun s _ => [s.out10bReg]) {} (symbols ++ [next, afterNext])).drop 2

/-- The groups one by one, each with the disparity that the last one left. -/
def groups : Disparity → List Symbol → List (BitVec 10)
  | _, [] => []
  | rd, s :: rest => s.code rd :: groups (s.nextDisp rd) rest

/-- The disparity behind them. -/
def disparityAfter (rd : Disparity) (symbols : List Symbol) : Disparity := symbols.foldl (fun d s => s.nextDisp d) rd

end Enc

end WrCores.TbiPhy
