import WrCores.Etherbone.ReplyFifos

/-!
eb_tx_mux.vhd: sends what the tags say. `consume` is what an entry means for the reply: it is sent in the packet that is
open, a request on the bus takes the next answer, and the error register gets a bit of every answer that is taken.
-/

namespace WrCores.Etherbone

open Clocked SlaveFsm

/-- Whether a packet is open behind a tag. -/
def Tag.opens (opened : Bool) : Tag → Bool
  | .dropTx => false
  | .passTx => true
  | _ => opened

structure TxMux where
  rSkip : Bool
  rTxCyc : Bool
  rTxStb : Bool
  txDatO : Word
  rTagValid : Bool
  rTagValue : Tag

namespace TxMux

structure In where
  tagDat : Tag
  tagEmpty : Bool
  passDat : Word
  passEmpty : Bool
  cfgDat : Word
  cfgEmpty : Bool
  wbmDat : Word
  wbmEmpty : Bool
  skipStall : Bool
  txStall : Bool
  /-- What is sent where nothing is: not known. -/
  any : Word

def reset : TxMux := ⟨false, false, false, 0, false, .dropTx⟩

variable (s : TxMux) (i : In)

def sCanTx : Bool := !((s.rTxCyc && s.rTxStb && i.txStall) || (s.rSkip && i.skipStall))

def sDatMux : Word :=
  match s.rTagValue with
  | .passTx => i.passDat
  | .passOn => i.passDat
  | .cfgReq => i.cfgDat
  | .cfgIgn => i.passDat
  | .wbmReq => i.wbmDat
  | .wbmIgn => i.passDat
  | .skipTx | .dropTx => i.any

def sTagMux : Bool :=
  match s.rTagValue with
  | .passTx => i.passEmpty
  | .passOn => i.passEmpty
  | .cfgReq => i.cfgEmpty
  | .cfgIgn => i.passEmpty || i.cfgEmpty
  | .wbmReq => i.wbmEmpty
  | .wbmIgn => i.passEmpty || i.wbmEmpty
  | .skipTx | .dropTx => false

def sPassMux : Bool :=
  match s.rTagValue with
  | .passTx => i.passEmpty
  | .passOn => i.passEmpty
  | .cfgIgn => i.passEmpty || i.cfgEmpty
  | .wbmIgn => i.passEmpty || i.wbmEmpty
  | .skipTx | .dropTx | .cfgReq | .wbmReq => true

def sCfgMux : Bool :=
  match s.rTagValue with
  | .cfgReq => i.cfgEmpty
  | .cfgIgn => i.passEmpty || i.cfgEmpty
  | _ => true

def sWbmMux : Bool :=
  match s.rTagValue with
  | .wbmReq => i.wbmEmpty
  | .wbmIgn => i.passEmpty || i.wbmEmpty
  | _ => true

def passPop : Bool := s.sCanTx i && s.rTagValid && !s.sPassMux i

def cfgPop : Bool := s.sCanTx i && s.rTagValid && !s.sCfgMux i

def wbmPop : Bool := s.sCanTx i && s.rTagValid && !s.sWbmMux i

def sTagPop : Bool := s.sCanTx i && s.rTagValid && !s.sTagMux i

def tagPop : Bool := !i.tagEmpty && (s.sTagPop i || !s.rTagValid)

def step : TxMux where
  rSkip := if s.sCanTx i then s.rTagValid && s.rTagValue == .skipTx else s.rSkip
  rTxCyc :=
    if s.sCanTx i && s.rTagValid then
      match s.rTagValue with
      | .dropTx => false
      | .passTx => true
      | _ => s.rTxCyc
    else s.rTxCyc
  rTxStb := if s.sCanTx i then !s.sTagMux i && s.rTagValid else s.rTxStb
  txDatO := if s.sCanTx i then s.sDatMux i else s.txDatO
  rTagValid := if s.sTagPop i || !s.rTagValid then !i.tagEmpty else s.rTagValid
  rTagValue := if s.sTagPop i || !s.rTagValid then i.tagDat else s.rTagValue

/-! ### What a tag takes -/

variable {s i}

theorem pops_eq : s.passPop i = (s.sTagPop i && s.rTagValue.needsPass) ∧
    s.cfgPop i = (s.sTagPop i && s.rTagValue.needsCfg) ∧ s.wbmPop i = (s.sTagPop i && s.rTagValue.needsWbm) := by
  simp only [passPop, cfgPop, wbmPop, sTagPop, sPassMux, sCfgMux, sWbmMux, sTagMux]
  cases s.rTagValue <;> simp [Tag.needsPass, Tag.needsCfg, Tag.needsWbm]

theorem pops_some (pop : s.sTagPop i = true) : (s.rTagValue.needsPass = true → i.passEmpty = false) ∧
    (s.rTagValue.needsCfg = true → i.cfgEmpty = false) ∧ (s.rTagValue.needsWbm = true → i.wbmEmpty = false) := by
  simp only [sTagPop, sTagMux, Bool.and_eq_true, Bool.not_eq_true'] at pop
  obtain ⟨-, there⟩ := pop
  revert there
  cases s.rTagValue <;> simp +contextual [Tag.needsPass, Tag.needsCfg, Tag.needsWbm]

/-- Where the output is stalled, nothing moves. -/
theorem step_stalled (stalled : s.sCanTx i = false) : s.sTagPop i = false ∧ (s.step i).rSkip = s.rSkip ∧
    (s.step i).rTxCyc = s.rTxCyc ∧ (s.step i).rTxStb = s.rTxStb ∧ (s.step i).txDatO = s.txDatO := by
  simp [sTagPop, step, stalled]

/-- Where something is missing, nothing is sent; the cycle begins before the first word is there. -/
theorem step_waits (free : s.sCanTx i = true) (wait : s.sTagPop i = false) :
    (s.step i).rSkip = false ∧ (s.step i).rTxStb = false ∧
      (s.step i).rTxCyc = (s.rTxCyc || (s.rTagValid && s.rTagValue == .passTx)) := by
  simp only [sTagPop, sTagMux] at wait
  simp only [step, sTagMux, free]
  cases valid : s.rTagValid <;> cases value : s.rTagValue <;> simp_all

theorem step_pops (pop : s.sTagPop i = true) : s.sCanTx i = true ∧ (s.step i).rSkip = (s.rTagValue == .skipTx) ∧
    (s.step i).rTxStb = true ∧ (s.step i).txDatO = s.sDatMux i ∧
      (s.step i).rTxCyc = s.rTagValue.opens s.rTxCyc := by
  simp only [sTagPop, Bool.and_eq_true, Bool.not_eq_true'] at pop
  obtain ⟨⟨free, valid⟩, there⟩ := pop
  simp only [step, free, valid, there, Bool.and_self, Bool.true_and, Bool.not_false, if_true, true_and]
  cases s.rTagValue <;> rfl

/-- The cycle of the output is that of the packet that is open, or of one whose first word is still missing. -/
structure Cycle (s : TxMux) (opened : Bool) : Prop where
  raised : opened = true → s.rTxCyc = true
  early : s.rTxCyc = true → opened = true ∨ s.rTagValid = true ∧ s.rTagValue = .passTx
  skips : s.rSkip = true → s.rTxCyc = false

variable {opened : Bool}

theorem Cycle.open_iff (cycle : s.Cycle opened) (other : s.rTagValue ≠ .passTx) : s.rTxCyc = opened := by
  cases opened with
  | true => exact cycle.raised rfl
  | false =>
      by_contra raised
      rcases cycle.early (by simpa using raised) with opens | ⟨-, first⟩
      · cases opens
      · exact other first

theorem Cycle.waits (cycle : s.Cycle opened) (wait : s.sTagPop i = false) : (s.step i).Cycle opened := by
  have stays : s.rTagValid = true → (s.step i).rTagValid = true ∧ (s.step i).rTagValue = s.rTagValue := fun valid => by
    simp [step, wait, valid]
  cases free : s.sCanTx i with
  | false =>
      obtain ⟨-, skip, cyc, -⟩ := step_stalled free
      refine ⟨fun opens => cyc ▸ cycle.raised opens, fun raised => ?_, fun skips => ?_⟩
      · refine (cycle.early (cyc ▸ raised)).imp_right fun ⟨valid, first⟩ => ?_
        exact ⟨(stays valid).1, (stays valid).2.trans first⟩
      · rw [skip] at skips
        rw [cyc, cycle.skips skips]
  | true =>
      obtain ⟨skip, -, cyc⟩ := step_waits free wait
      refine ⟨fun opens => by rw [cyc, cycle.raised opens, Bool.true_or], fun raised => ?_, fun skips => ?_⟩
      · rw [cyc, Bool.or_eq_true, Bool.and_eq_true, beq_iff_eq] at raised
        rcases raised with raised | ⟨valid, first⟩
        · refine (cycle.early raised).imp_right fun ⟨valid, first⟩ => ?_
          exact ⟨(stays valid).1, (stays valid).2.trans first⟩
        · exact .inr ⟨(stays valid).1, (stays valid).2.trans first⟩
      · rw [skip] at skips
        cases skips

theorem Cycle.pops (cycle : s.Cycle opened) (pop : s.sTagPop i = true)
    (headed : s.rTagValue = .skipTx ∨ s.rTagValue = .passTx → opened = false) :
    (s.step i).Cycle (s.rTagValue.opens opened) := by
  obtain ⟨-, skip, -, -, cyc⟩ := step_pops pop
  by_cases first : s.rTagValue = .passTx
  · simp only [first, Tag.opens] at skip cyc ⊢
    exact ⟨fun _ => cyc, fun _ => .inl rfl, fun skips => by rw [skip] at skips; cases skips⟩
  · have same := cycle.open_iff first
    rw [same] at cyc
    refine ⟨fun opens => cyc.trans opens, fun raised => .inl (cyc ▸ raised), fun skips => ?_⟩
    rw [skip, beq_iff_eq] at skips
    rw [cyc, skips]
    exact headed (.inl skips)

end TxMux

/-! ### What the entries mean -/

namespace SlaveFsm

namespace Entry

def tag : Entry → Tag
  | dropTx => .dropTx
  | skipTx => .skipTx
  | passTx _ => .passTx
  | passOn _ => .passOn
  | cfgReq _ => .cfgReq
  | cfgIgn .. => .cfgIgn
  | wbmReq => .wbmReq
  | wbmIgn _ => .wbmIgn

def pass : Entry → List Word
  | passTx dat | passOn dat | cfgIgn dat _ | wbmIgn dat => [dat]
  | _ => []

def cfg : Entry → List (BitVec 3)
  | cfgReq adr | cfgIgn _ adr => [adr]
  | _ => []

theorem pass_length (e : Entry) : e.pass.length = e.tag.needsPass.toNat := by cases e <;> rfl

theorem eq_dropTx {e : Entry} (tag : e.tag = .dropTx) : e = dropTx := by
  cases e <;> first | rfl | cases tag

theorem cfg_length (e : Entry) : e.cfg.length = e.tag.needsCfg.toNat := by cases e <;> rfl

end Entry

variable {s : SlaveFsm}

theorem entry_tag : s.entry.tag = s.rTagDat := by
  rw [entry]
  cases s.rTagDat <;> rfl

theorem pushed_tag : s.pushed.map Entry.tag = if s.rTagStb then [s.rTagDat] else [] := by
  rw [pushed]
  cases s.rTagStb <;> simp [entry_tag]

theorem Agree.pushed_pass (agree : s.Agree) :
    s.pushed.flatMap Entry.pass = if s.rPassStb then [s.rPassDat] else [] := by
  rw [pushed, agree.pass, entry]
  cases s.rTagStb <;> cases s.rTagDat <;> rfl

theorem Agree.pushed_cfg (agree : s.Agree) :
    s.pushed.flatMap Entry.cfg = if s.rCfgStb then [cfgAdr s.rMasterAdr] else [] := by
  rw [pushed, agree.cfg, entry]
  cases s.rTagStb <;> cases s.rTagDat <;> rfl

end SlaveFsm

inductive TxOut
  | word (d : Word)
  | drop
  | skip
  deriving DecidableEq, Repr

/-- Whether a packet is open, the error register, and the answers of the bus that have not been taken. -/
structure Reply where
  opened : Bool
  errreg : BitVec 64
  answers : List (Bool × Word)

namespace Reply

def pop (t : Reply) : Reply :=
  match t.answers with
  | [] => t
  | (ack, _) :: rest => { t with errreg := WbmFifo.logged t.errreg ack, answers := rest }

def consume (t : Reply) : Entry → Reply
  | .dropTx => { t with opened := false }
  | .passTx _ => { t with opened := true }
  | .wbmReq | .wbmIgn _ => t.pop
  | .skipTx | .passOn _ | .cfgReq _ | .cfgIgn .. => t

def say (t : Reply) (dat : Word) : List TxOut := if t.opened then [.word dat] else []

def sends (g : CfgRegs) (t : Reply) : Entry → List TxOut
  | .dropTx => if t.opened then [.drop] else []
  | .skipTx => [.skip]
  | .passTx dat => [.word dat]
  | .passOn dat | .cfgIgn dat _ | .wbmIgn dat => t.say dat
  | .cfgReq adr => t.say (g.dat t.errreg adr)
  | .wbmReq => t.say ((t.answers.map (·.2)).headD 0)

end Reply

end WrCores.Etherbone
