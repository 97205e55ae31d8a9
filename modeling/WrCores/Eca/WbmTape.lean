import WrCores.Eca.WbmMemory

/-!
What the macros of eca_ac_wbm hold. A tape beside the machine notes the words of each recording, three for an element;
in every run the list of a macro in the RAM holds the elements on the tape, in their order.
-/

namespace WrCores.Eca.Wbm

open Clocked Heap

variable {n entries : Nat}

/-! ### A record in the RAM -/

/-- `f_ser_rec`. -/
def fSerRec (r : Rec n) : BitVec (1 + (n + 1) + 69 + 4) :=
  (BitVec.ofBool r.hasNext ++ r.pnext) ++ (BitVec.ofBool r.drop ++ r.sel ++ r.addr ++ r.data) ++ r.chShow

/-- `f_dser_rec`. -/
def fDserRec (a : BitVec (1 + (n + 1) + 69 + 4)) : Rec n :=
  let x := a.extractLsb' 73 (1 + (n + 1))
  let y := a.extractLsb' 4 69
  { hasNext := x.getLsbD (n + 1)
    pnext := x.extractLsb' 0 (n + 1)
    drop := y.getLsbD 68
    sel := y.extractLsb' 64 4
    addr := y.extractLsb' 32 32
    data := y.extractLsb' 0 32
    chShow := a.extractLsb' 0 4 }

theorem extract_high {v w : Nat} (x : BitVec v) (y : BitVec w) (u k : Nat) :
    (x ++ y).extractLsb' (w + u) k = x.extractLsb' u k := by
  refine BitVec.eq_of_getLsbD_eq fun j less => ?_
  rw [BitVec.getLsbD_extractLsb', BitVec.getLsbD_extractLsb', BitVec.getLsbD_append, if_neg (by omega)]
  congr 2
  omega

theorem extract_low {v w : Nat} (x : BitVec v) (y : BitVec w) : (x ++ y).extractLsb' 0 w = y := by
  refine BitVec.eq_of_getLsbD_eq fun j less => ?_
  rw [BitVec.getLsbD_extractLsb', BitVec.getLsbD_append, Nat.zero_add, if_pos less, decide_eq_true less,
    Bool.true_and]

theorem extract_top {v w : Nat} (x : BitVec v) (y : BitVec w) : (x ++ y).extractLsb' w v = x :=
  (extract_high x y 0 v).trans BitVec.extractLsb'_eq_self

theorem dser_ser (r : Rec n) : fDserRec (fSerRec r) = r := by
  obtain ⟨hasNext, pnext, drop, sel, addr, data, chShow⟩ := r
  have x : (fSerRec ⟨hasNext, pnext, drop, sel, addr, data, chShow⟩).extractLsb' 73 (1 + (n + 1)) =
      BitVec.ofBool hasNext ++ pnext := by
    exact (extract_high _ _ 69 _).trans (extract_top _ _)
  have y : (fSerRec ⟨hasNext, pnext, drop, sel, addr, data, chShow⟩).extractLsb' 4 69 =
      BitVec.ofBool drop ++ sel ++ addr ++ data := by
    exact (extract_high _ _ 0 _).trans (extract_low _ _)
  rw [fDserRec, x, y, fSerRec, extract_low, extract_low, extract_low]
  simp only [Rec.mk.injEq, true_and, and_true]
  refine ⟨?_, ?_, ?_, ?_⟩
  · rw [BitVec.getLsbD_append, if_neg (lt_irrefl _), Nat.sub_self]
    cases hasNext <;> rfl
  · rw [BitVec.getLsbD_append, if_neg (by decide), BitVec.getLsbD_append, if_neg (by decide), BitVec.getLsbD_append,
      if_neg (by decide)]
    cases drop <;> rfl
  · exact (extract_high _ _ 32 4).trans ((extract_high _ _ 0 4).trans (extract_low _ _))
  · exact (extract_high _ _ 0 32).trans (extract_low _ _)

/-! ### The tape -/

/-- The three words of an element. -/
structure Element where
  addr : BitVec 32
  data : BitVec 32
  metaWord : BitVec 32
  deriving DecidableEq, Repr

def Element.drop (e : Element) : Bool := e.metaWord.getLsbD 8

structure Tape (entries : Nat) where
  macros : Fin entries → List Element
  addr : BitVec 32
  data : BitVec 32

/-- What an edge puts on the tape. -/
def Tape.step (tape : Tape entries) (s : Wbm n entries) (i : WbmIn n) : Tape entries :=
  if s.clearing then { tape with macros := fun _ => [] }
  else if !s.rdy then tape
  else
    match s.state, s.pulse with
    | .idle, some (.record idx) =>
        match i.action, macroIdx idx.toNat with
        | none, some m => if s.free m then { tape with macros := Function.update tape.macros m [] } else tape
        | _, _ => tape
    | .recAddr, some (.recFifo word) => { tape with addr := word }
    | .recData, some (.recFifo word) => { tape with data := word }
    | .recMeta, some (.recFifo word) =>
        match macroIdx s.lastRec.toNat with
        | some m =>
            { tape with
              macros := Function.update tape.macros m (tape.macros m ++ [⟨tape.addr, tape.data, word⟩]) }
        | none => tape
    | _, _ => tape

/-- A record with the fields of an element. -/
structure Stores (r : Rec n) (e : Element) : Prop where
  addr : r.addr = e.addr
  data : r.data = e.data
  drop : r.drop = e.drop
  sel : r.sel = e.metaWord.extractLsb' 0 4
  chShow : r.chShow = e.metaWord.extractLsb' 4 4

/-- The records at the addresses hold the elements. -/
def Holds (ram : Addr n → Rec n) (l : List (Addr n)) (es : List Element) : Prop :=
  List.Forall₂ (fun a e => Stores (ram a) e) l es

theorem Holds.frame {ram other : Addr n → Rec n} {l : List (Addr n)} {es : List Element} (holds : Holds ram l es)
    (same : ∀ a ∈ l, other a = ram a) : Holds other l es := by
  induction holds with
  | nil => exact .nil
  | @cons a e l es here _ ih =>
      refine .cons (by rw [same a (by simp)]; exact here) (ih fun b inside => same b (by simp [inside]))

variable {s : Wbm n entries} {i : WbmIn n} {tape : Tape entries} {lists : Fin entries → List (Addr n)}

/-- The records from an address on hold the elements. -/
def Plays (ram : Addr n → Rec n) : Addr n → List Element → Prop
  | _, [] => False
  | a, e :: rest => Stores (ram a) e ∧ match rest with
    | [] => (ram a).hasNext = false
    | _ :: _ => (ram a).hasNext = true ∧ Plays ram (ram a).pnext rest

end WrCores.Eca.Wbm
