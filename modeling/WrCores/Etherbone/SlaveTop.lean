import WrCores.Etherbone.TxMux

/-!
eb_slave_top.vhd: the machine, the four FIFOs and the multiplexer. The FIFOs have no guards, so that the stream must
leave a word of room where a push is on its way: the words of a stream are never taken at two edges in a row
(eb_stream_widen.vhd builds them from smaller ones), and it does not end where the tag FIFO is full. The bus answers
only what it is asked. Then no FIFO is overrun, and what is sent is what the entries mean, in their order.
-/

namespace WrCores.Etherbone

open Clocked SlaveFsm

structure SlaveTop (t : Nat) where
  fsm : SlaveFsm
  mux : TxMux
  tag : EbFifo 5 Tag
  pass : EbFifo 5 Word
  cfg : CfgFifo
  wbm : WbmFifo t

namespace SlaveTop

structure In where
  rxCyc : Bool
  rxStb : Bool
  rxDat : Word
  txStall : Bool
  skipStall : Bool
  masterStall : Bool
  wbI : Answer
  any : Word

section Source

variable {t : Nat} (g : CfgRegs) (gTimeoutCycles : Nat) (s : SlaveTop t) (i : In)

/-- What the memories hold before the first word. -/
structure Memories where
  tag : BitVec 5 → Tag
  pass : BitVec 5 → Word
  cfg : BitVec 5 → BitVec 3
  wbm : BitVec 5 → Bool × Word

def reset (t gTimeoutCycles : Nat) (m : Memories) : SlaveTop t where
  fsm := .reset
  mux := .reset
  tag := .reset m.tag
  pass := .reset m.pass
  cfg := .reset m.cfg
  wbm := .reset t gTimeoutCycles m.wbm

def fsmIn : SlaveFsm.In where
  rxCyc := i.rxCyc
  rxStb := i.rxStb
  rxDat := i.rxDat
  tagFull := s.tag.wFullO
  passFull := s.pass.wFullO
  cfgFull := s.cfg.fifo.wFullO
  wbmFull := s.wbm.rFull
  wbmBusy := s.wbm.rBusy
  masterStall := i.masterStall

def muxIn : TxMux.In where
  tagDat := s.tag.rDatO
  tagEmpty := s.tag.rEmptyO
  passDat := s.pass.rDatO
  passEmpty := s.pass.rEmptyO
  cfgDat := g.dat s.wbm.rErrreg s.cfg.rCacheAdr
  cfgEmpty := s.cfg.rCacheEmpty
  wbmDat := s.wbm.datfifo.rDatO.2
  wbmEmpty := s.wbm.datfifo.rEmptyO
  skipStall := i.skipStall
  txStall := i.txStall
  any := i.any

def step : SlaveTop t where
  fsm := s.fsm.step (s.fsmIn i)
  mux := s.mux.step (s.muxIn g i)
  tag := s.tag.step s.fsm.rTagStb (s.mux.tagPop (s.muxIn g i)) s.fsm.rTagDat
  pass := s.pass.step s.fsm.rPassStb (s.mux.passPop (s.muxIn g i)) s.fsm.rPassDat
  cfg := s.cfg.step s.fsm.rCfgStb (s.mux.cfgPop (s.muxIn g i)) (cfgAdr s.fsm.rMasterAdr)
  wbm := s.wbm.step gTimeoutCycles i.wbI s.fsm.rWbmStb (s.mux.wbmPop (s.muxIn g i))

/-! ### What goes in and comes out -/

/-- The stream leaves room. -/
def Paced : Prop :=
  s.fsm.events (s.fsmIn i) ≠ [] → s.fsm.rTagStb = false ∧ s.tag.wFullO = false

/-- The bus has been asked. -/
def Asked : Prop := i.wbI.ack || i.wbI.err || i.wbI.rty → s.wbm.rBusy = true ∨ s.fsm.rWbmStb = true

/-- The events of the stream. -/
def events : List Event := s.fsm.events (s.fsmIn i)

def pushes : List Entry := (s.step g gTimeoutCycles i).fsm.pushed

/-- The answer of the bus, or the one that a timeout makes up. -/
def answered : List (Bool × Word) := if s.wbm.sWbIRdy i.wbI then [(i.wbI.ack, i.wbI.dat)] else []

/-- What goes out at the edge. -/
def sent : List TxOut :=
  (if s.mux.rSkip && !i.skipStall then [.skip] else []) ++
    (if s.mux.rTxCyc && s.mux.rTxStb && !i.txStall then [.word s.mux.txDatO] else []) ++
    if s.mux.rTxCyc && !(s.step g gTimeoutCycles i).mux.rTxCyc then [.drop] else []

/-- What is on its way out. -/
def leaving : List TxOut :=
  (if s.mux.rSkip then [.skip] else []) ++
    if s.mux.rTxCyc && s.mux.rTxStb then [.word s.mux.txDatO] else []

def tags : List Tag := (if s.mux.rTagValid then [s.mux.rTagValue] else []) ++ s.tag.stored

/-- The reply, with the answers that are still to come. -/
def reply (opened : Bool) (later : List (Bool × Word)) : Reply :=
  ⟨opened, s.wbm.rErrreg, s.wbm.datfifo.stored ++ later⟩

end Source

/-- How many requests have been made whose answers have not been sent. -/
def queued {t : Nat} (s : SlaveTop t) : Nat := s.tags.countP Tag.needsWbm

def opens (opened : Bool) (e : Entry) : Bool := e.tag.opens opened

/-- A packet begins, or is skipped, only when none is open. -/
def Headed : Bool → List Entry → Prop
  | _, [] => True
  | opened, e :: es => (e.tag = .skipTx ∨ e.tag = .passTx → opened = false) ∧ Headed (opens opened e) es

/-- The multiplexer, the FIFOs and the machine hold the entries `owed`. -/
structure Owes {t : Nat} (s : SlaveTop t) (owed : List Entry) : Prop where
  tags : s.tags ++ (if s.fsm.rTagStb then [s.fsm.rTagDat] else []) = owed.map Entry.tag
  pass : s.pass.stored ++ (if s.fsm.rPassStb then [s.fsm.rPassDat] else []) = owed.flatMap Entry.pass
  cfg : s.cfg.stored ++ (if s.fsm.rCfgStb then [cfgAdr s.fsm.rMasterAdr] else []) = owed.flatMap Entry.cfg

/-- There is room for what is pushed. -/
structure Inv {t : Nat} (s : SlaveTop t) (owed : List Entry) (opened : Bool) : Prop where
  fsm : s.fsm.Inv
  agree : s.fsm.Agree
  tagSound : s.tag.Sound
  passSound : s.pass.Sound
  cfgSound : s.cfg.fifo.Sound
  wbm : s.wbm.Inv s.queued
  tagRoom : s.fsm.rTagStb = true → s.tag.stored.length < 32
  passRoom : s.fsm.rPassStb = true → s.pass.stored.length < 32
  cfgRoom : s.fsm.rCfgStb = true → s.cfg.fifo.stored.length < 32
  wbmRoom : s.fsm.rWbmStb = true → s.queued < 32
  owes : s.Owes owed
  headed : Headed opened owed
  closed : s.fsm.rState = .ebHdr → owed.foldl opens opened = false
  cycle : s.mux.Cycle opened

variable {t : Nat} {g : CfgRegs} {gTimeoutCycles : Nat} {s : SlaveTop t} {i : In} {owed : List Entry} {opened : Bool}

variable (g gTimeoutCycles i) in
/-- The tags move up. -/
theorem tags_step (sound : s.tag.Sound) (room : s.fsm.rTagStb = true → s.tag.stored.length < 32) :
    (s.step g gTimeoutCycles i).tag.Sound ∧
      (s.step g gTimeoutCycles i).tag.stored.length ≤ s.tag.stored.length + s.fsm.rTagStb.toNat ∧
      s.tags ++ (if s.fsm.rTagStb then [s.fsm.rTagDat] else []) =
        (if s.mux.sTagPop (s.muxIn g i) then [s.mux.rTagValue] else []) ++ (s.step g gTimeoutCycles i).tags := by
  have some : s.mux.tagPop (s.muxIn g i) = true → s.tag.rEmptyO = false := fun pop => by
    simpa [muxIn] using (Bool.and_eq_true_iff.mp pop).1
  obtain ⟨sound', short, balanced⟩ := sound.step room some s.fsm.rTagDat
  refine ⟨sound', short, ?_⟩
  have valid : s.mux.sTagPop (s.muxIn g i) = true → s.mux.rTagValid = true := fun pop => by
    simp only [TxMux.sTagPop, Bool.and_eq_true] at pop
    exact pop.1.2
  rw [tags, List.append_assoc, balanced]
  by_cases pop : s.mux.sTagPop (s.muxIn g i) = true <;> by_cases there : s.mux.rTagValid = true <;>
    by_cases empty : s.tag.rEmptyO = true <;> simp_all [tags, step, TxMux.step, TxMux.tagPop, muxIn]

variable (g gTimeoutCycles i) in
theorem pass_step (inv : s.Inv owed opened) : (s.step g gTimeoutCycles i).pass.Sound ∧
    (s.step g gTimeoutCycles i).pass.stored.length ≤ s.pass.stored.length + s.fsm.rPassStb.toNat ∧
    s.pass.stored ++ (if s.fsm.rPassStb then [s.fsm.rPassDat] else []) =
      (if s.mux.sTagPop (s.muxIn g i) && s.mux.rTagValue.needsPass then [s.pass.rDatO] else []) ++
        (s.step g gTimeoutCycles i).pass.stored := by
  rw [← TxMux.pops_eq.1]
  refine inv.passSound.step inv.passRoom (fun pop => ?_) s.fsm.rPassDat
  rw [TxMux.pops_eq.1, Bool.and_eq_true] at pop
  exact (TxMux.pops_some pop.1).1 pop.2

variable (g gTimeoutCycles i) in
theorem cfg_step (inv : s.Inv owed opened) : (s.step g gTimeoutCycles i).cfg.fifo.Sound ∧
    (s.step g gTimeoutCycles i).cfg.fifo.stored.length ≤ s.cfg.fifo.stored.length + s.fsm.rCfgStb.toNat ∧
    s.cfg.stored ++ (if s.fsm.rCfgStb then [cfgAdr s.fsm.rMasterAdr] else []) =
      (if s.mux.sTagPop (s.muxIn g i) && s.mux.rTagValue.needsCfg then [s.cfg.rCacheAdr] else []) ++
        (s.step g gTimeoutCycles i).cfg.stored := by
  rw [← TxMux.pops_eq.2.1]
  refine CfgFifo.step_stored inv.cfgSound inv.cfgRoom fun pop => ?_
  rw [TxMux.pops_eq.2.1, Bool.and_eq_true] at pop
  exact (TxMux.pops_some pop.1).2.1 pop.2

variable (g gTimeoutCycles) in
theorem wbm_step (inv : s.Inv owed opened) (asked : s.Asked i) :
    (s.step g gTimeoutCycles i).wbm.Inv (s.step g gTimeoutCycles i).queued ∧
    (s.step g gTimeoutCycles i).queued ≤ s.queued + s.fsm.rWbmStb.toNat ∧
    s.wbm.datfifo.stored ++ s.answered i =
      (if s.mux.sTagPop (s.muxIn g i) && s.mux.rTagValue.needsWbm then [s.wbm.datfifo.rDatO] else []) ++
        (s.step g gTimeoutCycles i).wbm.datfifo.stored := by
  have counts := congrArg (List.countP Tag.needsWbm) (tags_step g gTimeoutCycles i inv.tagSound inv.tagRoom).2.2
  have one (b : Bool) (tag : Tag) : (if b then [tag] else []).countP Tag.needsWbm = (b && tag.needsWbm).toNat := by
    cases b <;> cases tag <;> rfl
  rw [List.countP_append, List.countP_append, one, one, ← inv.agree.wbm, ← TxMux.pops_eq.2.2] at counts
  have some : s.mux.wbmPop (s.muxIn g i) = true → s.wbm.datfifo.rEmptyO = false := fun pop => by
    rw [TxMux.pops_eq.2.2, Bool.and_eq_true] at pop
    exact (TxMux.pops_some pop.1).2.2 pop.2
  obtain ⟨kept, balanced⟩ := inv.wbm.step gTimeoutCycles inv.wbmRoom some asked
  have same : s.queued + s.fsm.rWbmStb.toNat - (s.mux.wbmPop (s.muxIn g i)).toNat =
      (s.step g gTimeoutCycles i).queued := by
    rw [queued, counts, Nat.add_sub_cancel_left, queued]
  rw [same] at kept
  rw [← TxMux.pops_eq.2.2]
  exact ⟨kept, by rw [queued, queued, counts]; exact Nat.le_add_left _ _, balanced⟩

/-- What the multiplexer sees of the entry it takes. -/
def Front (g : CfgRegs) (s : SlaveTop t) (i : In) (e : Entry) : Prop :=
  s.mux.sTagPop (s.muxIn g i) = true ∧ e.tag = s.mux.rTagValue ∧
    e.pass = (if e.tag.needsPass then [s.pass.rDatO] else []) ∧
    e.cfg = if e.tag.needsCfg then [s.cfg.rCacheAdr] else []

variable (g gTimeoutCycles i) in
/-- An edge takes the first entry, or none. -/
theorem owed_step (inv : s.Inv owed opened) : ∃ gone rest, owed ++ s.pushes g gTimeoutCycles i = gone ++ rest ∧
    (s.mux.sTagPop (s.muxIn g i) = false ∧ gone = [] ∨ ∃ e, gone = [e] ∧ Front g s i e) ∧
    (s.step g gTimeoutCycles i).Owes rest := by
  obtain ⟨agree, -⟩ := s.fsm.step_pushes (s.fsmIn i) inv.fsm
  have tags := (tags_step g gTimeoutCycles i inv.tagSound inv.tagRoom).2.2
  have passes := (pass_step g gTimeoutCycles i inv).2.2
  have cfgs := (cfg_step g gTimeoutCycles i inv).2.2
  have newTags := SlaveFsm.pushed_tag (s := (s.step g gTimeoutCycles i).fsm)
  have newPasses := agree.pushed_pass
  have newCfgs := agree.pushed_cfg
  rw [inv.owes.tags] at tags
  rw [inv.owes.pass] at passes
  rw [inv.owes.cfg] at cfgs
  cases pop : s.mux.sTagPop (s.muxIn g i) with
  | false =>
      rw [pop] at tags passes cfgs
      refine ⟨[], owed ++ s.pushes g gTimeoutCycles i, rfl, .inl ⟨rfl, rfl⟩, ?_, ?_, ?_⟩
      · rw [List.map_append, tags, pushes, newTags]
        rfl
      · rw [List.flatMap_append, passes]
        exact congrArg (_ ++ ·) newPasses.symm
      · rw [List.flatMap_append, cfgs]
        exact congrArg (_ ++ ·) newCfgs.symm
  | true =>
      rw [pop] at tags passes cfgs
      obtain ⟨e, more, rfl⟩ : ∃ e more, owed = e :: more := by
        cases owed with
        | nil => cases tags
        | cons e more => exact ⟨e, more, rfl⟩
      rw [List.map_cons, if_pos rfl, List.singleton_append, List.cons.injEq] at tags
      rw [List.flatMap_cons, Bool.true_and, ← tags.1] at passes cfgs
      have sized {α : Type} (b : Bool) (x : α) : (if b then [x] else []).length = b.toNat := by cases b <;> rfl
      obtain ⟨pass, passes⟩ := List.append_inj passes (by rw [sized, e.pass_length])
      obtain ⟨cfg, cfgs⟩ := List.append_inj cfgs (by rw [sized, e.cfg_length])
      refine ⟨[e], more ++ s.pushes g gTimeoutCycles i, rfl, .inr ⟨e, rfl, pop, tags.1, pass, cfg⟩, ?_, ?_, ?_⟩
      · rw [List.map_append, tags.2, pushes, newTags]
      · rw [List.flatMap_append, passes]
        exact congrArg (_ ++ ·) newPasses.symm
      · rw [List.flatMap_append, cfgs]
        exact congrArg (_ ++ ·) newCfgs.symm

/-- Where nothing stalls, what is on its way goes out. -/
theorem leaving_free (skips : s.mux.rSkip = true → s.mux.rTxCyc = false) (free : s.mux.sCanTx (s.muxIn g i) = true) :
    (if s.mux.rSkip && !i.skipStall then [TxOut.skip] else []) ++
      (if s.mux.rTxCyc && s.mux.rTxStb && !i.txStall then [.word s.mux.txDatO] else []) = s.leaving := by
  simp only [TxMux.sCanTx, muxIn, Bool.not_eq_true'] at free
  rw [leaving]
  cases cyc : s.mux.rTxCyc <;> cases skip : s.mux.rSkip <;> cases stb : s.mux.rTxStb <;> simp_all

/-- Where no entry is taken, what is on its way goes on. -/
theorem sent_none (inv : s.Inv owed opened) (wait : s.mux.sTagPop (s.muxIn g i) = false) :
    s.leaving = s.sent g gTimeoutCycles i ++ (s.step g gTimeoutCycles i).leaving := by
  have after : (s.step g gTimeoutCycles i).mux = s.mux.step (s.muxIn g i) := rfl
  cases free : s.mux.sCanTx (s.muxIn g i) with
  | false =>
      obtain ⟨-, skip, cyc, stb, dat⟩ := TxMux.step_stalled free
      have skips := inv.cycle.skips
      rw [leaving, sent, leaving, after, skip, cyc, stb, dat]
      simp only [TxMux.sCanTx, muxIn, Bool.not_eq_false'] at free
      cases cyc' : s.mux.rTxCyc <;> cases skip' : s.mux.rSkip <;> simp_all
  | true =>
      obtain ⟨skip, stb, cyc⟩ := TxMux.step_waits free wait
      rw [sent, leaving_free inv.cycle.skips free, leaving.eq_1 (s.step g gTimeoutCycles i), after, skip, stb, cyc]
      cases s.mux.rTxCyc <;> simp

variable (gTimeoutCycles) in
/-- Where an entry is taken, what it sends is on its way. -/
theorem sent_one {e : Entry} (inv : s.Inv owed opened) (asked : s.Asked i) (front : Front g s i e)
    (headed : e.tag = .skipTx ∨ e.tag = .passTx → opened = false) (later : List (Bool × Word)) :
    s.leaving ++ Reply.sends g (s.reply opened (s.answered i ++ later)) e =
        s.sent g gTimeoutCycles i ++ (s.step g gTimeoutCycles i).leaving ∧
      Reply.consume (s.reply opened (s.answered i ++ later)) e =
        (s.step g gTimeoutCycles i).reply (opens opened e) later := by
  obtain ⟨pop, tag, pass, cfg⟩ := front
  have after : (s.step g gTimeoutCycles i).mux = s.mux.step (s.muxIn g i) := rfl
  obtain ⟨free, skip, stb, dat, cyc⟩ := TxMux.step_pops pop
  have answers := (wbm_step g gTimeoutCycles inv asked).2.2
  have error : (s.step g gTimeoutCycles i).wbm.rErrreg =
      if e.tag.needsWbm then WbmFifo.logged s.wbm.rErrreg s.wbm.datfifo.rDatO.1 else s.wbm.rErrreg := by
    rw [step, WbmFifo.step, TxMux.pops_eq.2.2, pop, tag]
    rfl
  have shut : e.tag ≠ .passTx → s.mux.rTxCyc = opened := fun other => inv.cycle.open_iff (tag ▸ other)
  rw [sent, leaving_free inv.cycle.skips free, List.append_assoc, leaving.eq_1 (s.step g gTimeoutCycles i), after, skip,
    stb, dat, cyc, ← tag, TxMux.sDatMux, ← tag, muxIn]
  rw [pop, ← tag] at answers
  simp only [reply, error]
  rw [← List.append_assoc, answers]
  refine ⟨congrArg (s.leaving ++ ·) ?_, ?_⟩
  · clear asked answers error after skip stb dat cyc free pop inv tag
    cases opened <;> cases e <;> simp_all [Entry.tag, Entry.pass, Entry.cfg, Reply.sends, Reply.say, Tag.needsPass,
      Tag.needsCfg, Tag.needsWbm, Tag.opens]
  · cases e <;> simp [Reply.consume, Reply.pop, opens, Tag.opens, Entry.tag, Tag.needsWbm]

theorem reply_none (inv : s.Inv owed opened) (asked : s.Asked i) (wait : s.mux.sTagPop (s.muxIn g i) = false)
    (later : List (Bool × Word)) :
    s.reply opened (s.answered i ++ later) = (s.step g gTimeoutCycles i).reply opened later := by
  have answers := (wbm_step g gTimeoutCycles inv asked).2.2
  rw [wait, Bool.false_and, if_neg Bool.false_ne_true, List.nil_append] at answers
  have error : (s.step g gTimeoutCycles i).wbm.rErrreg = s.wbm.rErrreg := by
    rw [step, WbmFifo.step, TxMux.pops_eq.2.2, wait]
    rfl
  rw [reply, reply, error, ← List.append_assoc, answers]

theorem headed_append (opened : Bool) (es es' : List Entry) :
    Headed opened (es ++ es') ↔ Headed opened es ∧ Headed (es.foldl opens opened) es' := by
  induction es generalizing opened with
  | nil => simp [Headed]
  | cons e es ih => rw [List.cons_append, Headed, Headed, ih, List.foldl_cons, and_assoc]

variable (g gTimeoutCycles i) in
/-- What is pushed begins a packet only when the one before has ended. -/
theorem pushes_headed (inv : s.Inv owed opened) : Headed opened (owed ++ s.pushes g gTimeoutCycles i) ∧
    ((s.step g gTimeoutCycles i).fsm.rState = .ebHdr →
      (owed ++ s.pushes g gTimeoutCycles i).foldl opens opened = false) := by
  rw [headed_append, List.foldl_append]
  rcases (s.fsm.step_pushes (s.fsmIn i) inv.fsm).2 with ⟨none, state⟩ | ⟨-, some, ended | ⟨state, head, -⟩⟩
  · have nothing : s.pushes g gTimeoutCycles i = [] := if_neg (ne_true_of_eq_false none)
    rw [nothing]
    exact ⟨⟨inv.headed, trivial⟩, fun here => inv.closed (state here)⟩
  · have last : s.pushes g gTimeoutCycles i = [.dropTx] :=
      (if_pos some).trans (congrArg (fun e => [e]) (Entry.eq_dropTx (entry_tag.trans ended)))
    rw [last]
    refine ⟨⟨inv.headed, ?_, trivial⟩, fun _ => rfl⟩
    rintro (tag | tag) <;> cases tag
  · have one : s.pushes g gTimeoutCycles i = [(s.step g gTimeoutCycles i).fsm.entry] := if_pos some
    rw [one]
    refine ⟨⟨inv.headed, fun begins => inv.closed (head ?_), trivial⟩, fun here => absurd here state⟩
    rwa [entry_tag] at begins

variable (g gTimeoutCycles) in
/-- An edge takes the first of the entries that it owes, or none, and sends what it means. -/
theorem step_inv (inv : s.Inv owed opened) (paced : s.Paced i) (asked : s.Asked i) :
    ∃ gone rest, owed ++ s.pushes g gTimeoutCycles i = gone ++ rest ∧
      (s.step g gTimeoutCycles i).Inv rest (gone.foldl opens opened) ∧
      ∀ later, s.leaving ++ collect Reply.consume (Reply.sends g) (s.reply opened (s.answered i ++ later)) gone =
          s.sent g gTimeoutCycles i ++ (s.step g gTimeoutCycles i).leaving ∧
        run Reply.consume (s.reply opened (s.answered i ++ later)) gone =
          (s.step g gTimeoutCycles i).reply (gone.foldl opens opened) later := by
  obtain ⟨gone, rest, moved, taken, owes⟩ := owed_step g gTimeoutCycles i inv
  obtain ⟨headed, closed⟩ := pushes_headed g gTimeoutCycles i inv
  rw [moved, headed_append] at headed
  rw [moved, List.foldl_append] at closed
  obtain ⟨agree, pushed⟩ := s.fsm.step_pushes (s.fsmIn i) inv.fsm
  obtain ⟨tagSound, tagShort, -⟩ := tags_step g gTimeoutCycles i inv.tagSound inv.tagRoom
  obtain ⟨passSound, passShort, -⟩ := pass_step g gTimeoutCycles i inv
  obtain ⟨cfgSound, cfgShort, -⟩ := cfg_step g gTimeoutCycles i inv
  obtain ⟨wbm, wbmShort, -⟩ := wbm_step g gTimeoutCycles inv asked
  -- what is pushed at the next edge has room: nothing is pushed at this one, and the FIFOs are not full
  have quiet : (s.step g gTimeoutCycles i).fsm.rTagStb = true →
      s.fsm.rTagStb = false ∧ s.tag.wFullO = false ∧ ((s.step g gTimeoutCycles i).fsm.rTagDat ≠ .dropTx →
        s.pass.wFullO = false ∧ s.cfg.fifo.wFullO = false ∧ s.wbm.rFull = false) := fun next => by
    rcases pushed with ⟨none, -⟩ | ⟨event, -, ended | ⟨-, -, free⟩⟩
    · exact absurd (none.symm.trans next) Bool.false_ne_true
    · exact ⟨(paced event).1, (paced event).2, fun other => absurd ended other⟩
    · exact ⟨(paced event).1, (paced event).2, fun _ => free⟩
  have needs {stb : Bool} {need : Tag → Bool} (same : stb = ((s.step g gTimeoutCycles i).fsm.rTagStb &&
      need (s.step g gTimeoutCycles i).fsm.rTagDat)) (drops : need .dropTx = false) (next : stb = true) :
      s.fsm.rTagStb = false ∧ s.pass.wFullO = false ∧ s.cfg.fifo.wFullO = false ∧ s.wbm.rFull = false := by
    rw [next, eq_comm, Bool.and_eq_true] at same
    obtain ⟨rests, -, free⟩ := quiet same.1
    refine ⟨rests, free fun ended => ?_⟩
    rw [ended, drops] at same
    exact Bool.false_ne_true same.2
  refine ⟨gone, rest, moved, ⟨s.fsm.step_inv (s.fsmIn i), agree, tagSound, passSound, cfgSound, wbm, fun next => ?_,
    fun next => ?_, fun next => ?_, fun next => ?_, owes, headed.2, closed, ?_⟩, fun later => ?_⟩
  · obtain ⟨rests, room, -⟩ := quiet next
    rw [rests] at tagShort
    exact tagShort.trans_lt (inv.tagSound.room room)
  · obtain ⟨rests, room, -⟩ := needs agree.pass rfl next
    rw [inv.agree.pass, rests] at passShort
    exact passShort.trans_lt (inv.passSound.room room)
  · obtain ⟨rests, -, room, -⟩ := needs agree.cfg rfl next
    rw [inv.agree.cfg, rests] at cfgShort
    exact cfgShort.trans_lt (inv.cfgSound.room room)
  · obtain ⟨rests, -, -, room⟩ := needs agree.wbm rfl next
    rw [inv.agree.wbm, rests] at wbmShort
    exact wbmShort.trans_lt (Nat.lt_of_le_of_ne inv.wbm.few (mt inv.wbm.full.mpr (ne_true_of_eq_false room)))
  · rcases taken with ⟨wait, rfl⟩ | ⟨e, rfl, front⟩
    · exact inv.cycle.waits wait
    · have cycle := inv.cycle.pops front.1 (front.2.1 ▸ headed.1.1)
      rwa [← front.2.1] at cycle
  · rcases taken with ⟨wait, rfl⟩ | ⟨e, rfl, front⟩
    · refine ⟨?_, reply_none inv asked wait later⟩
      rw [collect_nil, List.append_nil]
      exact sent_none inv wait
    · obtain ⟨sends, consumes⟩ := sent_one gTimeoutCycles inv asked front headed.1.1 later
      refine ⟨?_, consumes⟩
      rw [collect_cons, collect_nil, List.append_nil]
      exact sends

theorem reset_inv (m : Memories) : (reset t gTimeoutCycles m).Inv [] false where
  fsm := SlaveFsm.inv_reset
  agree := ⟨rfl, rfl, rfl⟩
  tagSound := (EbFifo.reset_sound m.tag).1
  passSound := (EbFifo.reset_sound m.pass).1
  cfgSound := (EbFifo.reset_sound m.cfg).1
  wbm := by
    have none : (reset t gTimeoutCycles m).queued = 0 := by
      rw [queued, tags, reset, (EbFifo.reset_sound m.tag).2]
      rfl
    rw [none]
    exact WbmFifo.reset_inv m.wbm
  tagRoom := nofun
  passRoom := nofun
  cfgRoom := nofun
  wbmRoom := nofun
  owes := by
    refine ⟨?_, ?_, ?_⟩
    · rw [tags, reset, (EbFifo.reset_sound m.tag).2]
      rfl
    · rw [reset, (EbFifo.reset_sound m.pass).2]
      rfl
    · rw [reset, CfgFifo.stored, CfgFifo.reset, (EbFifo.reset_sound m.cfg).2]
      rfl
  headed := trivial
  closed _ := rfl
  cycle := ⟨nofun, nofun, nofun⟩

theorem run_inv (inv : s.Inv owed opened) (inputs : List In)
    (good : Along (step g gTimeoutCycles) (fun s i => s.Paced i ∧ s.Asked i) s inputs) :
    ∃ gone rest, owed ++ collect (step g gTimeoutCycles) (pushes g gTimeoutCycles) s inputs = gone ++ rest ∧
      (run (step g gTimeoutCycles) s inputs).Inv rest (gone.foldl opens opened) ∧
      ∀ later,
        s.leaving ++ collect Reply.consume (Reply.sends g)
            (s.reply opened (collect (step g gTimeoutCycles) answered s inputs ++ later)) gone =
          collect (step g gTimeoutCycles) (sent g gTimeoutCycles) s inputs ++
            (run (step g gTimeoutCycles) s inputs).leaving ∧
        run Reply.consume (s.reply opened (collect (step g gTimeoutCycles) answered s inputs ++ later)) gone =
          (run (step g gTimeoutCycles) s inputs).reply (gone.foldl opens opened) later := by
  induction inputs generalizing s owed opened with
  | nil => exact ⟨[], owed, by simp, inv, fun later => by simp⟩
  | cons i inputs ih =>
      obtain ⟨gone, rest, moved, next, sends⟩ := step_inv g gTimeoutCycles inv good.1.1 good.1.2
      obtain ⟨gone', rest', moved', last, sends'⟩ := ih next good.2
      refine ⟨gone ++ gone', rest', ?_, ?_, fun later => ?_⟩
      · rw [collect_cons, ← List.append_assoc, moved, List.append_assoc, moved', List.append_assoc]
      · rw [List.foldl_append]
        exact last
      · obtain ⟨now, state⟩ :=
          sends (collect (step g gTimeoutCycles) answered (s.step g gTimeoutCycles i) inputs ++ later)
        obtain ⟨later', state'⟩ := sends' later
        rw [collect_cons, collect_cons, List.append_assoc, collect_append, run_append, state, state', List.foldl_append]
        refine ⟨?_, rfl⟩
        rw [← List.append_assoc, now, List.append_assoc, later', List.append_assoc]
        rfl

end SlaveTop

end WrCores.Etherbone
