import WrCores.Etherbone.Replies

/-!
eb_stream_widen.vhd, as eb_ethernet_slave.vhd puts it in front of the slave: two half words make a word, the first one
in the high half, and no end of a cycle is lost. Behind it the slave never gets two words at two edges in a row.
-/

namespace WrCores.Etherbone

open Clocked SlaveFsm

structure StreamWiden where
  rCyc : Bool
  rDrop : Bool
  rStb : Bool
  rIdx : BitVec 1
  rDat : Word

namespace StreamWiden

structure In where
  cyc : Bool
  stb : Bool
  dat : BitVec 16
  masterStall : Bool

def reset : StreamWiden where
  rCyc := false
  rDrop := false
  rStb := false
  rIdx := 1
  rDat := 0

variable (s : StreamWiden) (i : In)

def sStall : Bool := (s.rStb && i.masterStall) || s.rDrop

/-- Whether a half word is taken. -/
def push : Bool := i.cyc && i.stb && !s.sStall i

/-- The cycle and the flag that its end has to be reported, of the flag, the strobe and the cycle of the sender. -/
def cases : Bool → Bool → Bool → Bool × Bool
  | false, false, false => (false, false)
  | false, false, true => (true, false)
  | false, true, false => (true, true)
  | false, true, true => (true, false)
  | true, false, _ => (false, false)
  | true, true, _ => (true, true)

def step : StreamWiden where
  rCyc := (cases s.rDrop s.rStb i.cyc).1
  rDrop := (cases s.rDrop s.rStb i.cyc).2
  rStb := if s.push i && s.rIdx == 0 then true else s.rStb && i.masterStall
  rIdx := if !i.cyc then 1 else if s.push i then if s.rIdx = 0 then 1 else s.rIdx - 1 else s.rIdx
  rDat :=
    if s.push i then
      if s.rIdx = 0 then s.rDat.extractLsb 31 16 ++ i.dat else i.dat ++ s.rDat.extractLsb 15 0
    else s.rDat

/-- A word that is shown has both its halves; a half that waits belongs to a cycle that goes on. -/
structure Inv : Prop where
  shown : s.rStb = true → s.rIdx = 1 ∧ s.rCyc = true
  half : s.rIdx = 0 → s.rCyc = true ∧ s.rDrop = false

variable {s}

theorem reset_inv : reset.Inv := ⟨nofun, nofun⟩

theorem idx_cases (x : BitVec 1) : x = 0 ∨ x = 1 := by
  revert x
  decide

/-- The registers beside the data. -/
theorem flags_step : ∀ (cyc drop stb : Bool) (idx : BitVec 1) (iCyc iStb stall : Bool),
    (stb = true → idx = 1 ∧ cyc = true) → (idx = 0 → cyc = true ∧ drop = false) →
      let next := step ⟨cyc, drop, stb, idx, 0⟩ ⟨iCyc, iStb, 0, stall⟩
      (next.rStb = true → next.rIdx = 1 ∧ next.rCyc = true) ∧
        (next.rIdx = 0 → next.rCyc = true ∧ next.rDrop = false) := by
  decide

theorem Inv.step (inv : s.Inv) : (s.step i).Inv := by
  have next := flags_step s.rCyc s.rDrop s.rStb s.rIdx i.cyc i.stb i.masterStall inv.shown inv.half
  exact ⟨next.1, next.2⟩

/-! ### Frames -/

/-- What the sender does at an edge: a half word is taken, or no cycle is on. -/
inductive Half
  | half (d : BitVec 16)
  | idle
  deriving DecidableEq, Repr

variable (s)

def halves : List Half := if !i.cyc then [.idle] else if s.push i then [.half i.dat] else []

/-- What the receiver sees of the cycle. -/
def shows : List Event :=
  if !s.rCyc then [.ending] else if s.rStb && !i.masterStall then [.word s.rDat] else []

end StreamWiden

/-- A half word that waits, and whether the cycle has had a word. -/
structure Pairing where
  first : Option (BitVec 16)
  some : Bool

namespace Pairing

open StreamWiden

def feed (p : Pairing) : Half → Pairing
  | .half d => match p.first with
    | none => { p with first := .some d }
    | .some _ => ⟨none, true⟩
  | .idle => ⟨none, false⟩

/-- The words of the pairs, and one end for each cycle that had a word. -/
def words (p : Pairing) : Half → List Event
  | .half d => match p.first with
    | none => []
    | .some h => [.word (h ++ d)]
  | .idle => if p.some then [.ending] else []

end Pairing

/-- Whether the receiver has had a word of the cycle. -/
def heard (_ : Bool) : Event → Bool
  | .word _ => true
  | .ending => false

def hears (some : Bool) : Event → List Event
  | .word d => [.word d]
  | .ending => if some then [.ending] else []

/-- The sender and the receiver at the two sides. -/
structure Framing where
  widen : StreamWiden
  pairing : Pairing
  some : Bool

namespace Framing

variable (f : Framing) (i : StreamWiden.In)

def reset : Framing := ⟨.reset, ⟨none, false⟩, false⟩

def step : Framing where
  widen := f.widen.step i
  pairing := run Pairing.feed f.pairing (f.widen.halves i)
  some := run heard f.some (f.widen.shows i)

/-- What is shown, and the end of a cycle that has had a word: the sender is in it no more. -/
def due (stb some had : Bool) (d : Word) : List Event :=
  (if stb then [.word d] else []) ++ if (stb || had) && !some then [.ending] else []

/-- What the receiver has not had. -/
def owed : List Event := due f.widen.rStb f.pairing.some f.some f.widen.rDat

/-- An end is due where it will be reported, and only there. -/
def ends (cyc drop stb some had : Bool) : Bool :=
  if some then (stb || had) && cyc && !drop else !(stb || had) || drop || !cyc

structure Inv : Prop where
  widen : f.widen.Inv
  first : f.pairing.first = if f.widen.rIdx = 0 then .some (f.widen.rDat.extractLsb 31 16) else none
  ends : ends f.widen.rCyc f.widen.rDrop f.widen.rStb f.pairing.some f.some = true

variable {f}

theorem reset_inv : reset.Inv := ⟨StreamWiden.reset_inv, rfl, rfl⟩

theorem high_append (d x : BitVec 16) : (d ++ x).extractLsb 31 16 = d := by
  apply BitVec.eq_of_getLsbD_eq
  intro j inside
  rw [BitVec.getLsbD_extractLsb, BitVec.getLsbD_append]
  grind

/-- What the receiver sees. -/
def seen (cyc stb stall : Bool) (d : Word) : List Event :=
  if !cyc then [.ending] else if stb && !stall then [.word d] else []

theorem idle_due (cyc drop stb stall some had : Bool) (d : Word) (shown : (!stb || cyc) = true)
    (ok : ends cyc drop stb some had = true) :
    let had' := run heard had (seen cyc stb stall d)
    ends (StreamWiden.cases drop stb false).1 (StreamWiden.cases drop stb false).2 (stb && stall) false had' = true ∧
      due stb some had d ++ (if some then [.ending] else []) =
        collect heard hears had (seen cyc stb stall d) ++ due (stb && stall) false had' d := by
  revert shown ok
  cases cyc <;> cases drop <;> cases stb <;> cases stall <;> cases some <;> cases had <;>
    first | exact fun _ _ => ⟨rfl, rfl⟩ | exact nofun

theorem still_due (cyc drop stb stall some had : Bool) (d : Word) (shown : (!stb || cyc) = true)
    (ok : ends cyc drop stb some had = true) :
    let had' := run heard had (seen cyc stb stall d)
    ends (StreamWiden.cases drop stb true).1 (StreamWiden.cases drop stb true).2 (stb && stall) some had' = true ∧
      due stb some had d = collect heard hears had (seen cyc stb stall d) ++ due (stb && stall) some had' d := by
  revert shown ok
  cases cyc <;> cases drop <;> cases stb <;> cases stall <;> cases some <;> cases had <;>
    first | exact fun _ _ => ⟨rfl, rfl⟩ | exact nofun

theorem word_due (stall some had : Bool) (d d' : Word) (ok : ends true false false some had = true) :
    let had' := run heard had (seen true false stall d)
    ends (StreamWiden.cases false false true).1 (StreamWiden.cases false false true).2 true true had' = true ∧
      due false some had d ++ [.word d'] =
        collect heard hears had (seen true false stall d) ++ due true true had' d' := by
  revert ok
  cases stall <;> cases some <;> cases had <;> first | exact fun _ => ⟨rfl, rfl⟩ | exact nofun

theorem step_inv (inv : f.Inv) : (f.step i).Inv ∧
    f.owed ++ collect Pairing.feed Pairing.words f.pairing (f.widen.halves i) =
      collect heard hears f.some (f.widen.shows i) ++ (f.step i).owed := by
  obtain ⟨widen, first, ok⟩ := inv
  have widen' := widen.step i
  have shown : (!f.widen.rStb || f.widen.rCyc) = true := by
    cases stb : f.widen.rStb with
    | false => rfl
    | true => simpa using (widen.shown stb).2
  have still := still_due _ _ _ i.masterStall _ _ f.widen.rDat shown ok
  have closed := idle_due _ _ _ i.masterStall _ _ f.widen.rDat shown ok
  cases cyc : i.cyc with
  | false =>
      have halves : f.widen.halves i = [.idle] := by simp [StreamWiden.halves, cyc]
      have push : f.widen.push i = false := by simp [StreamWiden.push, cyc]
      refine ⟨⟨widen', ?_, ?_⟩, ?_⟩ <;>
        simp only [step, owed, halves, run_cons, run_nil, collect_cons, collect_nil, List.append_nil, Pairing.feed,
          Pairing.words, StreamWiden.step, cyc, push]
      · rfl
      · exact closed.1
      · exact closed.2
  | true =>
      cases push : f.widen.push i with
      | false =>
          have halves : f.widen.halves i = [] := by simp [StreamWiden.halves, cyc, push]
          refine ⟨⟨widen', ?_, ?_⟩, ?_⟩ <;>
            simp only [step, owed, halves, run_nil, collect_nil, StreamWiden.step, cyc, push]
          · exact first
          · exact still.1
          · exact (List.append_nil _).trans still.2
      | true =>
          have halves : f.widen.halves i = [.half i.dat] := by simp [StreamWiden.halves, cyc, push]
          have free := push
          simp only [StreamWiden.push, StreamWiden.sStall, Bool.and_eq_true, Bool.not_eq_true',
            Bool.or_eq_false_iff] at free
          rcases StreamWiden.idx_cases f.widen.rIdx with second | idx
          · -- the word is complete
            obtain ⟨on, drop⟩ := widen.half second
            have low : f.widen.rStb = false := by
              by_contra stb
              rw [(widen.shown (by simpa using stb)).1] at second
              cases second
            rw [on, drop, low] at ok
            have word := word_due i.masterStall _ _ f.widen.rDat (f.widen.rDat.extractLsb 31 16 ++ i.dat) ok
            refine ⟨⟨widen', ?_, ?_⟩, ?_⟩ <;>
              simp only [step, owed, halves, run_cons, run_nil, collect_cons, collect_nil, Pairing.feed, Pairing.words,
                StreamWiden.step, StreamWiden.shows, cyc, push, second, first, on, drop, low]
            · rfl
            · exact word.1
            · exact word.2
          · -- the first half of a word
            refine ⟨⟨widen', ?_, ?_⟩, ?_⟩ <;>
              simp only [step, owed, halves, run_cons, run_nil, collect_cons, collect_nil, Pairing.feed, Pairing.words,
                StreamWiden.step, cyc, push, idx, first]
            · exact congrArg Option.some (high_append _ _).symm
            · exact still.1
            · have same := still.2
              rw [free.2.1] at same ⊢
              exact (List.append_nil _).trans same

end Framing

theorem Framing.run_owed {f : Framing} (inv : f.Inv) (inputs : List StreamWiden.In) :
    f.owed ++
        collect Pairing.feed Pairing.words f.pairing (collect StreamWiden.step StreamWiden.halves f.widen inputs) =
      collect heard hears f.some (collect StreamWiden.step StreamWiden.shows f.widen inputs) ++
        (run step f inputs).owed := by
  induction inputs generalizing f with
  | nil => simp
  | cons i inputs ih =>
      obtain ⟨next, balanced⟩ := f.step_inv i inv
      have later := ih next
      rw [collect_cons, collect_cons, collect_append, collect_append, ← List.append_assoc, balanced, List.append_assoc,
        List.append_assoc]
      exact congrArg (_ ++ ·) later

/-- The words that the receiver takes and the ends of its cycles, those without a word left out, are the pairs of half
words that the sender has handed over and the ends of its cycles; what is missing is shown or due. -/
theorem halves_paired (inputs : List StreamWiden.In) :
    collect Pairing.feed Pairing.words ⟨none, false⟩ (collect StreamWiden.step StreamWiden.halves .reset inputs) =
      collect heard hears false (collect StreamWiden.step StreamWiden.shows .reset inputs) ++
        (run Framing.step .reset inputs).owed :=
  Framing.run_owed Framing.reset_inv inputs

/-! ### The slave behind it -/

/-- eb_stream_widen.vhd and eb_slave_top.vhd. -/
structure Widened (t : Nat) where
  widen : StreamWiden
  slave : SlaveTop t

namespace Widened

structure In where
  cyc : Bool
  stb : Bool
  dat : BitVec 16
  txStall : Bool
  skipStall : Bool
  masterStall : Bool
  wbI : Answer
  any : Word

variable {t : Nat} (g : CfgRegs) (gTimeoutCycles : Nat) (s : Widened t) (i : In)

def slaveIn : SlaveTop.In where
  rxCyc := s.widen.rCyc
  rxStb := s.widen.rStb
  rxDat := s.widen.rDat
  txStall := i.txStall
  skipStall := i.skipStall
  masterStall := i.masterStall
  wbI := i.wbI
  any := i.any

def widenIn : StreamWiden.In where
  cyc := i.cyc
  stb := i.stb
  dat := i.dat
  masterStall := s.slave.fsm.sStall (s.slave.fsmIn (s.slaveIn i))

def step : Widened t where
  widen := s.widen.step (s.widenIn i)
  slave := s.slave.step g gTimeoutCycles (s.slaveIn i)

def reset (t gTimeoutCycles : Nat) (m : SlaveTop.Memories) : Widened t := ⟨.reset, .reset t gTimeoutCycles m⟩

/-- Behind a word, or behind the end of a cycle, there is an edge without either. -/
structure Spaced : Prop where
  widen : s.widen.Inv
  rests : s.slave.fsm.rTagStb = true →
    s.widen.rStb = false ∧ (s.widen.rCyc = true ∨ s.slave.fsm.rRxCyc = false)

variable {s}

theorem word_event {d : Word} (event : s.slave.events (s.slaveIn i) = [.word d]) :
    s.widen.rStb = true ∧ s.slave.fsm.sStall (s.slave.fsmIn (s.slaveIn i)) = false := by
  rw [SlaveTop.events, SlaveFsm.events] at event
  split_ifs at event with closed had there
  · cases event
  · exact there

theorem ending_event (event : s.slave.events (s.slaveIn i) = [.ending]) :
    s.widen.rCyc = false ∧ s.slave.fsm.rRxCyc = true := by
  rw [SlaveTop.events, SlaveFsm.events] at event
  split_ifs at event with closed had
  · exact ⟨closed, had⟩
  · cases event

theorem Spaced.step (spaced : s.Spaced) : (s.step g gTimeoutCycles i).Spaced := by
  obtain ⟨widen, -⟩ := spaced
  refine ⟨widen.step _, fun pushed => ?_⟩
  obtain ⟨shown, half⟩ := widen
  have next : (s.step g gTimeoutCycles i).slave.fsm = s.slave.fsm.step (s.slave.fsmIn (s.slaveIn i)) := rfl
  have stb : (s.step g gTimeoutCycles i).widen.rStb = (if s.widen.push (s.widenIn i) && s.widen.rIdx == 0 then true
    else s.widen.rStb && s.slave.fsm.sStall (s.slave.fsmIn (s.slaveIn i))) := rfl
  have cyc : (s.step g gTimeoutCycles i).widen.rCyc =
    (StreamWiden.cases s.widen.rDrop s.widen.rStb i.cyc).1 := rfl
  rcases s.slave.fsm.step_cases (s.slave.fsmIn (s.slaveIn i)) with
    ⟨d, event, -, moves⟩ | ⟨event, moves⟩ | ⟨-, -, -, moves⟩ | ⟨-, -, moves⟩
  · -- the word has been taken, and the next one needs another half
    obtain ⟨there, free⟩ := word_event i event
    rw [stb, cyc, free, there, (shown there).1]
    exact ⟨by simp, .inl (by cases s.widen.rDrop <;> cases i.cyc <;> rfl)⟩
  · have closed := (ending_event i event).1
    have idx : s.widen.rIdx = 1 := (StreamWiden.idx_cases _).resolve_left fun waits =>
      absurd ((half waits).1.symm.trans closed) nofun
    have low : s.widen.rStb = false := by
      by_contra there
      exact absurd ((shown (by simpa using there)).2.symm.trans closed) nofun
    rw [stb, idx, low, next, moves]
    exact ⟨by simp, .inr rfl⟩
  · rw [next, moves] at pushed
    cases pushed
  · rw [next, moves] at pushed
    cases pushed

/-- The stream leaves room, but for an end that finds the tag FIFO full. -/
theorem Spaced.paced (spaced : s.Spaced)
    (room : s.slave.events (s.slaveIn i) = [.ending] → s.slave.tag.wFullO = false) : s.slave.Paced (s.slaveIn i) := by
  intro some
  rw [← Bool.not_eq_true]
  rcases s.slave.fsm.step_cases (s.slave.fsmIn (s.slaveIn i)) with
    ⟨d, event, -, -⟩ | ⟨event, -⟩ | ⟨event, -⟩ | ⟨event, -⟩
  · obtain ⟨there, free⟩ := word_event i event
    simp only [sStall, Bool.or_eq_false_iff] at free
    exact ⟨fun pushed => Bool.false_ne_true ((spaced.rests pushed).1.symm.trans there), free.1.1.1.1.1⟩
  · obtain ⟨closed, had⟩ := ending_event i event
    refine ⟨fun pushed => ?_, room event⟩
    rcases (spaced.rests pushed).2 with goes | never
    · exact Bool.false_ne_true (closed.symm.trans goes)
    · exact Bool.false_ne_true (never.symm.trans had)
  · exact absurd event some
  · exact absurd event some

theorem reset_spaced (m : SlaveTop.Memories) : (reset t gTimeoutCycles m).Spaced := ⟨StreamWiden.reset_inv, nofun⟩

/-- What the slave takes at an edge is what the receiver of the words sees. -/
theorem slave_hears {had : Bool} (past : s.slave.fsm.rRxCyc = false → had = false) :
    collect heard hears had (s.slave.events (s.slaveIn i)) = collect heard hears had (s.widen.shows (s.widenIn i)) ∧
      run heard had (s.slave.events (s.slaveIn i)) = run heard had (s.widen.shows (s.widenIn i)) ∧
      ((s.step g gTimeoutCycles i).slave.fsm.rRxCyc = false →
        run heard had (s.slave.events (s.slaveIn i)) = false) := by
  have cyc : (s.step g gTimeoutCycles i).slave.fsm.rRxCyc = s.widen.rCyc := rfl
  have events : s.slave.events (s.slaveIn i) = if s.widen.rCyc = false then
      if s.slave.fsm.rRxCyc then [.ending] else []
    else if s.widen.rStb = true ∧ s.slave.fsm.sStall (s.slave.fsmIn (s.slaveIn i)) = false then
      [.word s.widen.rDat] else [] := rfl
  have shows : s.widen.shows (s.widenIn i) = if !s.widen.rCyc then [.ending]
    else if s.widen.rStb && !s.slave.fsm.sStall (s.slave.fsmIn (s.slaveIn i)) then [.word s.widen.rDat] else [] := rfl
  rw [cyc, events, shows]
  cases on : s.widen.rCyc with
  | false =>
      cases past' : s.slave.fsm.rRxCyc with
      | false =>
          obtain rfl := past past'
          exact ⟨rfl, rfl, fun _ => rfl⟩
      | true => exact ⟨rfl, rfl, fun _ => rfl⟩
  | true => simp

/-- The pairs of half words that have been handed over are the words that the slave takes, up to a word and an end. -/
theorem run_frames {p : Pairing} {had : Bool} (inv : Framing.Inv ⟨s.widen, p, had⟩)
    (past : s.slave.fsm.rRxCyc = false → had = false) (inputs : List In) :
    ∃ late : List Event, late.length ≤ 2 ∧
      Framing.owed ⟨s.widen, p, had⟩ ++
          collect Pairing.feed Pairing.words p
            (collect (step g gTimeoutCycles) (fun s i => s.widen.halves (s.widenIn i)) s inputs) =
        collect heard hears had (collect (step g gTimeoutCycles) (fun s i => s.slave.events (s.slaveIn i)) s inputs) ++
          late := by
  induction inputs generalizing s p had with
  | nil =>
      refine ⟨Framing.owed ⟨s.widen, p, had⟩, ?_, by simp⟩
      rw [Framing.owed, Framing.due, List.length_append]
      split_ifs <;> simp
  | cons i inputs ih =>
      obtain ⟨next, balanced⟩ := Framing.step_inv (s.widenIn i) inv
      obtain ⟨hears', heard', past'⟩ := slave_hears g gTimeoutCycles i past
      have next' : Framing.Inv ⟨(s.step g gTimeoutCycles i).widen, run Pairing.feed p (s.widen.halves (s.widenIn i)),
        run heard had (s.widen.shows (s.widenIn i))⟩ := next
      obtain ⟨late, few, later⟩ := ih next' (heard' ▸ past')
      refine ⟨late, few, ?_⟩
      rw [collect_cons, collect_cons, collect_append, collect_append, ← List.append_assoc, hears', heard',
        List.append_assoc (collect heard hears had _), ← later, ← List.append_assoc]
      exact congrArg (· ++ _) balanced

/-- The slave in its run behind the words. -/
theorem simulates : Simulates (step g gTimeoutCycles) (SlaveTop.step g gTimeoutCycles) (fun s : Widened t => s.slave)
    (fun s i => [s.slaveIn i]) Spaced where
  kept _ i spaced := spaced.step g gTimeoutCycles i
  moves _ _ _ := rfl

/-- The slave takes the pairs of the half words that have been handed over, and answers them in order. Nothing is lost
unless a stream ends where the tag FIFO is full. -/
theorem stream_served (m : SlaveTop.Memories) (inputs : List In)
    (good : Along (step g gTimeoutCycles)
      (fun s i => (s.slave.events (s.slaveIn i) = [.ending] → s.slave.tag.wFullO = false) ∧ s.slave.Asked (s.slaveIn i))
      (reset t gTimeoutCycles m) inputs) :
    let start := reset t gTimeoutCycles m
    let last := run (step g gTimeoutCycles) start inputs
    let seen {α : Type} (f : SlaveTop t → SlaveTop.In → List α) : List α :=
      collect (step g gTimeoutCycles) (fun s i => f s.slave (s.slaveIn i)) start inputs
    (∃ late : List Event, late.length ≤ 2 ∧
      collect Pairing.feed Pairing.words ⟨none, false⟩
          (collect (step g gTimeoutCycles) (fun s i => s.widen.halves (s.widenIn i)) start inputs) =
        collect heard hears false (seen SlaveTop.events) ++ late) ∧
    (∃ gone rest, seen (SlaveTop.pushes g gTimeoutCycles) = gone ++ rest ∧ last.slave.Owes rest ∧
      seen (SlaveTop.sent g gTimeoutCycles) ++ last.slave.leaving =
        collect Reply.consume (Reply.sends g) ⟨false, 0, seen SlaveTop.answered⟩ gone) ∧
    last.slave.tag.stored.length ≤ 32 ∧ last.slave.pass.stored.length ≤ 32 ∧
      last.slave.cfg.fifo.stored.length ≤ 32 ∧ last.slave.wbm.datfifo.stored.length ≤ 32 := by
  intro start last seen
  have sim := simulates (t := t) g gTimeoutCycles
  have spaced : start.Spaced := reset_spaced gTimeoutCycles m
  have served : Along (SlaveTop.step g gTimeoutCycles) (fun s i => s.Paced i ∧ s.Asked i) start.slave
      (collect (step g gTimeoutCycles) (fun s i => [s.slaveIn i]) start inputs) :=
    sim.along_run (fun s i spaced ok => ⟨⟨spaced.paced i ok.1, ok.2⟩, trivial⟩) spaced good
  have same {α : Type} (f : SlaveTop t → SlaveTop.In → List α) : seen f =
      collect (SlaveTop.step g gTimeoutCycles) f start.slave
        (collect (step g gTimeoutCycles) (fun s i => [s.slaveIn i]) start inputs) :=
    sim.collect_run (fun s i _ => (List.append_nil _).symm) spaced inputs
  have ends : last.slave = run (SlaveTop.step g gTimeoutCycles) (.reset t gTimeoutCycles m)
      (collect (step g gTimeoutCycles) (fun s i => [s.slaveIn i]) start inputs) := sim.core_run spaced inputs
  obtain ⟨⟨gone, rest, pushed, owes, sends⟩, few⟩ := SlaveTop.replies_in_order t g gTimeoutCycles m _ served
  obtain ⟨late, few', frames⟩ := run_frames g gTimeoutCycles (s := start) Framing.reset_inv (fun _ => rfl) inputs
  rw [ends]
  refine ⟨⟨late, few', frames⟩, ⟨gone, rest, (same _).trans pushed, owes, ?_⟩, few⟩
  rw [same, same]
  exact sends

def calm (cyc stb : Bool) (dat : BitVec 16) (ack : Bool) : In :=
  ⟨cyc, stb, dat, false, false, false, ⟨ack, false, false, 42⟩, 0⟩

/-- A write and a read in half words, which the bus answers in the end. -/
def asks : List In :=
  (Packet.ask.encode.flatMap fun d =>
    [calm true true (d.extractLsb 31 16) false, calm true true (d.extractLsb 15 0) false]) ++
    List.replicate 4 (calm false false 0 false) ++ List.replicate 2 (calm false false 0 true)

theorem stream_served_ask :
    (run (step ⟨0, 0, 0, 0⟩ 100) (reset 8 100 SlaveTop.blank) asks).slave.tag.stored.length ≤ 32 :=
  (stream_served _ _ _ asks (by decide +kernel)).2.2.1

end Widened

end WrCores.Etherbone
