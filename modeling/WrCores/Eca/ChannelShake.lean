import Mathlib.Tactic
import WrCores.Eca.Channel

/-!
How a request of the bus goes through eca_channel.vhd. It crosses to `clk_i` as a toggle, is worked off there step by
step, and its answer crosses back; the bus has no second one under way. Whatever the edges of the two clocks, the
registers of the handshake say where the request is.
-/

namespace WrCores.Eca.Channel

open Clocked

variable {v c g : Nat}

scoped instance phases : NeZero 13 := ⟨by decide⟩

/-- The way of a request: 1 to 3 towards `clk_i`, 4 to 8 in it, 9 to 12 back to the bus. -/
def nextPhase (p : Fin 13) (clk req stb busy val final : Bool) : Fin 13 :=
  match p with
  | 0 => if req && stb then 1 else 0
  | 1 => if clk then 2 else 1
  | 2 => if clk then 3 else 2
  | 3 => if clk then 4 else 3
  | 4 => if clk then 5 else 4
  | 5 => if clk && !busy then 6 else 5
  | 6 => if clk then 7 else 6
  | 7 => if clk && val then 8 else 7
  | 8 => if clk && !final then 9 else 8
  | 9 => if req then 10 else 9
  | 10 => if req then 11 else 10
  | 11 => if req then 12 else 11
  | 12 => if req then 0 else 12

/-- The handshake registers of a request on its way. -/
structure Shake (s : State v c g) (p : Fin 13) : Prop where
  old : s.bus.rReqOld = decide (p ≠ 0)
  xor2 : (s.bus.rReqXor1 ^^ s.main.rReqXor2) = decide (p = 1)
  xor3 : (s.main.rReqXor2 ^^ s.main.rReqXor3) = decide (p = 2)
  xor4 : (s.main.rReqXor3 ^^ s.main.rReqXor4) = decide (p = 3)
  rok : s.main.rReqRok = decide (p ≠ 4)
  aok : s.main.rReqAok = decide (p < 4 ∨ 6 ≤ p)
  sok : s.main.rReqSok = decide (p < 4 ∨ 7 ≤ p)
  dok : s.main.rReqDok = decide (p < 4 ∨ 8 ≤ p)
  ack : s.main.rReqAck = decide (p < 4 ∨ 9 ≤ p)
  xor6 : (s.main.rReqXor5 ^^ s.bus.rReqXor6) = decide (p = 9)
  xor7 : (s.bus.rReqXor6 ^^ s.bus.rReqXor7) = decide (p = 10)
  xor8 : (s.bus.rReqXor7 ^^ s.bus.rReqXor8) = decide (p = 11)
  out : s.bus.rReqOut = decide (p = 12)

def phaseAfter (s : State v c g) (p : Fin 13) (e : Edge v g) : Fin 13 :=
  nextPhase p e.1.isSome e.2.isSome ((e.2.map (·.stb)).getD false) s.main.rBusy ((e.1.map s.main.sReqVal).getD false)
    s.main.rFinal

section Shake

variable {s : State v c g} {p : Fin 13}

theorem Shake.sReqRok (shake : Shake s p) : s.main.sReqRok = decide (p = 3) := by
  rw [Main.sReqRok, Bool.xor_comm, shake.xor4]

theorem Shake.sReqIdx (shake : Shake s p) : s.main.sReqIdx = (decide (p = 5) && !s.main.rBusy) := by
  rw [Main.sReqIdx, shake.rok, shake.aok]
  generalize s.main.rBusy = busy
  clear shake
  revert p busy
  decide

theorem Shake.sReqDok (shake : Shake s p) (i : In v g) : s.main.sReqDok i = (decide (p = 7) && s.main.sReqVal i) := by
  rw [Main.sReqDok, shake.sok, shake.dok]
  generalize s.main.sReqVal i = val
  clear shake
  revert p val
  decide

theorem Shake.sReqAck (shake : Shake s p) : s.main.sReqAck = (decide (p = 8) && !s.main.rFinal) := by
  rw [Main.sReqAck, shake.dok, shake.ack]
  generalize s.main.rFinal = final
  clear shake
  revert p final
  decide

theorem Shake.sReqIn (shake : Shake s p) (i : ReqIn v) : s.bus.sReqIn i = (decide (p = 0) && i.stb) := by
  rw [Bus.sReqIn, shake.old, decide_not, Bool.not_not]

theorem Shake.sReqOok (shake : Shake s p) : s.bus.sReqOok = decide (p = 11) := by
  rw [Bus.sReqOok, Bool.xor_comm, shake.xor8]

/-- The registers of `clk_i` after one of its edges. -/
theorem shake_clk (shake : Shake s p) (i : In v g) :
    let m := s.main.step s.bus i
    let p' := nextPhase p true false false s.main.rBusy (s.main.sReqVal i) s.main.rFinal
    (s.bus.rReqXor1 ^^ m.rReqXor2) = decide (p' = 1 ∧ p = 0) ∧ (m.rReqXor2 ^^ m.rReqXor3) = decide (p' = 2) ∧
      (m.rReqXor3 ^^ m.rReqXor4) = decide (p' = 3) ∧ m.rReqRok = decide (p' ≠ 4) ∧
      m.rReqAok = decide (p' < 4 ∨ 6 ≤ p') ∧ m.rReqSok = decide (p' < 4 ∨ 7 ≤ p') ∧
      m.rReqDok = decide (p' < 4 ∨ 8 ≤ p') ∧ m.rReqAck = decide (p' < 4 ∨ 9 ≤ p') ∧
      (m.rReqXor5 ^^ s.main.rReqXor5) = decide (p = 8 ∧ p' = 9) := by
  intro m p'
  have xor2 : m.rReqXor2 = s.bus.rReqXor1 := rfl
  have xor3 : m.rReqXor3 = s.main.rReqXor2 := rfl
  have xor4 : m.rReqXor4 = s.main.rReqXor3 := rfl
  have xor5 : m.rReqXor5 = (s.main.rReqXor5 ^^ s.main.sReqAck) := rfl
  have rok : m.rReqRok = !s.main.sReqRok := rfl
  have aok : m.rReqAok = (!s.main.sReqRok && (s.main.rReqAok || s.main.sReqIdx)) := rfl
  have sok : m.rReqSok = (!s.main.sReqRok && s.main.rReqAok) := rfl
  have dok : m.rReqDok = (!s.main.sReqRok && (s.main.rReqDok || s.main.sReqDok i)) := rfl
  have ack : m.rReqAck = (!s.main.sReqRok && (s.main.rReqAck || s.main.sReqAck)) := rfl
  have toggled : ∀ a b : Bool, (a ^^ b ^^ a) = b := by decide
  rw [xor2, xor3, xor4, xor5, toggled, rok, aok, sok, dok, ack, Bool.xor_self, shake.xor2, shake.xor3,
    shake.sReqRok, shake.sReqIdx,
    shake.sReqDok, shake.sReqAck, shake.aok, shake.dok, shake.ack]
  clear_value m
  subst p'
  generalize s.main.rBusy = busy
  generalize s.main.sReqVal i = val
  generalize s.main.rFinal = final
  clear shake xor2 xor3 xor4 xor5 rok aok sok dok ack toggled m
  revert p busy val final
  decide +kernel

/-- The registers of `req_clk_i` after one of its edges. -/
theorem shake_req (shake : Shake s p) (i : ReqIn v) :
    let b := s.bus.step s.main i
    let p' := nextPhase p false true i.stb s.main.rBusy false s.main.rFinal
    b.rReqOld = decide (p' ≠ 0) ∧ (b.rReqXor1 ^^ s.bus.rReqXor1) = decide (p = 0 ∧ p' = 1) ∧
      (b.rReqXor6 ^^ s.main.rReqXor5) = decide (p' = 9 ∧ p = 8) ∧ (b.rReqXor6 ^^ b.rReqXor7) = decide (p' = 10) ∧
      (b.rReqXor7 ^^ b.rReqXor8) = decide (p' = 11) ∧ b.rReqOut = decide (p' = 12) := by
  intro b p'
  have old : b.rReqOld = (!s.bus.rReqOut && (s.bus.rReqOld || i.stb)) := rfl
  have xor1 : b.rReqXor1 = (s.bus.rReqXor1 ^^ s.bus.sReqIn i) := rfl
  have xor6 : b.rReqXor6 = s.main.rReqXor5 := rfl
  have xor7 : b.rReqXor7 = s.bus.rReqXor6 := rfl
  have xor8 : b.rReqXor8 = s.bus.rReqXor7 := rfl
  have out : b.rReqOut = s.bus.sReqOok := rfl
  have toggled : ∀ a b : Bool, (a ^^ b ^^ a) = b := by decide
  rw [old, xor1, xor6, xor7, xor8, out, toggled, Bool.xor_self, shake.old, shake.out, shake.sReqIn, shake.xor6,
    shake.xor7,
    shake.sReqOok]
  clear_value b
  subst p'
  generalize s.main.rBusy = busy
  generalize i.stb = stb
  generalize s.main.rFinal = final
  clear shake old xor1 xor6 xor7 xor8 out toggled b
  revert p busy stb final
  decide +kernel

theorem shake_step (shake : Shake s p) (e : Edge v g) : Shake (s.step e) (phaseAfter s p e) := by
  -- a toggle that has changed, seen from the register behind it
  have past : ∀ a b d : Bool, (a ^^ d) = ((a ^^ b) ^^ (b ^^ d)) := by decide
  match e with
  | (none, none) =>
      have still : phaseAfter s p (none, none) = p := by
        change nextPhase p false false false s.main.rBusy false s.main.rFinal = p
        generalize s.main.rBusy = busy
        generalize s.main.rFinal = final
        clear shake past
        revert p busy final
        decide +kernel
      rw [still]
      exact shake
  | (some i, none) =>
      obtain ⟨xor2, xor3, xor4, rok, aok, sok, dok, ack, xor5⟩ := shake_clk shake i
      have next : phaseAfter s p (some i, none) =
        nextPhase p true false false s.main.rBusy (s.main.sReqVal i) s.main.rFinal := rfl
      have stays : ∀ (q : Fin 13) (a b d : Bool), let q' := nextPhase q true false false a b d
          decide (q ≠ 0) = decide (q' ≠ 0) ∧ decide (q' = 1 ∧ q = 0) = decide (q' = 1) ∧
          (decide (q = 8 ∧ q' = 9) ^^ decide (q = 9)) = decide (q' = 9) ∧ decide (q = 10) = decide (q' = 10) ∧
          decide (q = 11) = decide (q' = 11) ∧ decide (q = 12) = decide (q' = 12) := by decide +kernel
      obtain ⟨zero, one, nine, ten, eleven, twelve⟩ := stays p s.main.rBusy (s.main.sReqVal i) s.main.rFinal
      rw [next]
      exact ⟨shake.old.trans zero, xor2.trans one, xor3, xor4, rok, aok, sok, dok, ack,
        (past _ s.main.rReqXor5 _).trans ((congrArg₂ _ xor5 shake.xor6).trans nine), shake.xor7.trans ten,
        shake.xor8.trans eleven, shake.out.trans twelve⟩
  | (none, some i) =>
      obtain ⟨old, xor1, xor6, xor7, xor8, out⟩ := shake_req shake i
      have next : phaseAfter s p (none, some i) = nextPhase p false true i.stb s.main.rBusy false s.main.rFinal := rfl
      have stays : ∀ (q : Fin 13) (a b d : Bool), let q' := nextPhase q false true a b false d
          (decide (q = 0 ∧ q' = 1) ^^ decide (q = 1)) = decide (q' = 1) ∧ decide (q = 2) = decide (q' = 2) ∧
          decide (q = 3) = decide (q' = 3) ∧ decide (q ≠ 4) = decide (q' ≠ 4) ∧
          decide (q < 4 ∨ 6 ≤ q) = decide (q' < 4 ∨ 6 ≤ q') ∧ decide (q < 4 ∨ 7 ≤ q) = decide (q' < 4 ∨ 7 ≤ q') ∧
          decide (q < 4 ∨ 8 ≤ q) = decide (q' < 4 ∨ 8 ≤ q') ∧ decide (q < 4 ∨ 9 ≤ q) = decide (q' < 4 ∨ 9 ≤ q') ∧
          decide (q' = 9 ∧ q = 8) = decide (q' = 9) := by decide +kernel
      obtain ⟨one, two, three, rok, aok, sok, dok, ack, nine⟩ := stays p i.stb s.main.rBusy s.main.rFinal
      rw [next]
      exact ⟨old, (past _ s.bus.rReqXor1 _).trans ((congrArg₂ _ xor1 shake.xor2).trans one), shake.xor3.trans two,
        shake.xor4.trans three, shake.rok.trans rok, shake.aok.trans aok, shake.sok.trans sok, shake.dok.trans dok,
        shake.ack.trans ack, (Bool.xor_comm _ _).trans (xor6.trans nine), xor7, xor8, out⟩
  | (some i, some j) =>
      obtain ⟨xor2, xor3, xor4, rok, aok, sok, dok, ack, xor5⟩ := shake_clk shake i
      obtain ⟨old, xor1, xor6, xor7, xor8, out⟩ := shake_req shake j
      have next : phaseAfter s p (some i, some j) =
        nextPhase p true true j.stb s.main.rBusy (s.main.sReqVal i) s.main.rFinal := rfl
      have both : ∀ (q : Fin 13) (a b d f : Bool), let q' := nextPhase q true true a b d f
          let q₁ := nextPhase q true false false b d f
          let q₂ := nextPhase q false true a b false f
          decide (q₂ ≠ 0) = decide (q' ≠ 0) ∧ (decide (q = 0 ∧ q₂ = 1) ^^ decide (q₁ = 1 ∧ q = 0)) = decide (q' = 1) ∧
          decide (q₁ = 2) = decide (q' = 2) ∧ decide (q₁ = 3) = decide (q' = 3) ∧ decide (q₁ ≠ 4) = decide (q' ≠ 4) ∧
          decide (q₁ < 4 ∨ 6 ≤ q₁) = decide (q' < 4 ∨ 6 ≤ q') ∧ decide (q₁ < 4 ∨ 7 ≤ q₁) = decide (q' < 4 ∨ 7 ≤ q') ∧
          decide (q₁ < 4 ∨ 8 ≤ q₁) = decide (q' < 4 ∨ 8 ≤ q') ∧ decide (q₁ < 4 ∨ 9 ≤ q₁) = decide (q' < 4 ∨ 9 ≤ q') ∧
          (decide (q = 8 ∧ q₁ = 9) ^^ decide (q₂ = 9 ∧ q = 8)) = decide (q' = 9) ∧ decide (q₂ = 10) = decide
            (q' = 10) ∧
          decide (q₂ = 11) = decide (q' = 11) ∧ decide (q₂ = 12) = decide (q' = 12) := by decide +kernel
      obtain ⟨zero, one, two, three, rok', aok', sok', dok', ack', nine, ten, eleven, twelve⟩ :=
        both p j.stb s.main.rBusy (s.main.sReqVal i) s.main.rFinal
      rw [next]
      exact ⟨old.trans zero, (past _ s.bus.rReqXor1 _).trans ((congrArg₂ _ xor1 xor2).trans one), xor3.trans two,
        xor4.trans three, rok.trans rok', aok.trans aok', sok.trans sok', dok.trans dok', ack.trans ack',
        (past _ s.main.rReqXor5 _).trans ((congrArg₂ _ xor5 ((Bool.xor_comm _ _).trans xor6)).trans nine),
        xor7.trans ten, xor8.trans eleven, out.trans twelve⟩

end Shake

end WrCores.Eca.Channel
