import Mathlib.Data.BitVec
import WrCores.Clocked.Run

/-!
eca_queue.vhd without its bus registers: an action crosses from the action clock to the bus clock
by toggles. An input says which of the two clocks has an edge; where both have one, each side
sees the other as it was. The channel keeps a valid action while it is stalled and goes on where
it is not.
-/

namespace WrCores.Eca

open Clocked

/-- `t_channel`: the flag and whatever else an action carries. -/
structure Channel (Action : Type) where
  valid : Bool
  action : Action

/-- `aEdge` holds what the channel turns to if it may change, `qEdge` the pop command. -/
structure QueueIn (Action : Type) where
  aEdge : Option (Channel Action)
  qEdge : Option Bool

structure Queue (Action : Type) where
  channel : Channel Action
  raPopXor : BitVec 6 := 0
  raValid : Bool := false
  raRefillXor : Bool := false
  rqPopXor : Bool := false
  rqValid : Bool := false
  rqRefillXor : BitVec 4 := 0
  rqReadyXor : BitVec 5 := 0
  rqReady : Bool := true
  rqChannel : Channel Action

/-- A register that shifts down, `new & old(high downto 1)`. -/
def shiftDown {n : Nat} (new : Bool) (old : BitVec (n + 1)) : BitVec (n + 1) :=
  BitVec.cons new (old.extractLsb' 1 n)

namespace Queue

variable {Action : Type}

def saPop (s : Queue Action) : Bool := s.raPopXor.getLsbD 3 ^^ s.raPopXor.getLsbD 2

def saValid (s : Queue Action) : Bool := s.channel.valid && !s.saPop

def saRefill (s : Queue Action) : Bool := s.channel.valid && !s.raValid

def aStall (s : Queue Action) : Bool := s.saValid

def sqRefill (s : Queue Action) : Bool := s.rqRefillXor.getLsbD 1 ^^ s.rqRefillXor.getLsbD 0

def sqReady (s : Queue Action) : Bool := s.rqReadyXor.getLsbD 1 ^^ s.rqReadyXor.getLsbD 0

def sqPop (s : Queue Action) (raw : Bool) : Bool := raw && s.rqValid && s.rqReady

/-- The process `action`, and the channel in front of it. -/
def actionEdge (s : Queue Action) (next : Channel Action) : Queue Action :=
  { s with
    channel := if s.aStall then s.channel else next
    raPopXor := shiftDown s.rqPopXor s.raPopXor
    raValid := s.saValid
    raRefillXor := s.raRefillXor ^^ s.saRefill }

/-- The processes `queue` and `bulk`. -/
def queueEdge (s : Queue Action) (raw : Bool) : Queue Action :=
  { s with
    rqPopXor := s.rqPopXor ^^ s.sqPop raw
    rqRefillXor := shiftDown s.raRefillXor s.rqRefillXor
    rqReadyXor := shiftDown (s.raPopXor.getLsbD 0) s.rqReadyXor
    rqValid := s.sqRefill || (s.rqValid && !s.sqPop raw)
    rqReady := s.sqReady || (s.rqReady && !s.sqPop raw)
    rqChannel := if s.sqRefill then s.channel else s.rqChannel }

def step (s : Queue Action) (i : QueueIn Action) : Queue Action :=
  let a := (i.aEdge.map s.actionEdge).getD s
  let q := (i.qEdge.map s.queueEdge).getD s
  { q with
    channel := a.channel, raPopXor := a.raPopXor, raValid := a.raValid, raRefillXor := a.raRefillXor }

/-- The actions for which a pop takes effect. -/
def popped (s : Queue Action) (i : QueueIn Action) : List Action :=
  match i.qEdge with
  | some raw => if s.sqPop raw then [s.rqChannel.action] else []
  | none => []

/-- The actions taken from the channel. -/
def taken (s : Queue Action) (i : QueueIn Action) : List Action :=
  if i.aEdge.isSome && s.channel.valid && !s.aStall then [s.channel.action] else []

/-! ### Toggles on their way -/

/-- A line of registers in which a toggle has come to `place`, counted from the top. -/
def toggled (n : Nat) (new : Bool) (place : Nat) : BitVec n :=
  let ones := BitVec.allOnes n <<< (n - 1 - place)
  if new then ones else ~~~ones

/-- The registers a pop passes, `rq_pop_xor`, `ra_pop_xor` and `rq_ready_xor`. -/
structure PopLine where
  pop : Bool
  action : BitVec 6
  ready : BitVec 5
  deriving DecidableEq

def popLine (new : Bool) (place : Fin 12) : PopLine :=
  let line := toggled 12 new place
  ⟨line.getLsbD 11, line.extractLsb' 5 6, line.extractLsb' 0 5⟩

/-- The registers a refill passes, `ra_refill_xor` and `rq_refill_xor`. -/
structure RefillLine where
  refill : Bool
  queue : BitVec 4
  deriving DecidableEq

def refillLine (new : Bool) (place : Fin 5) : RefillLine :=
  let line := toggled 5 new place
  ⟨line.getLsbD 4, line.extractLsb' 0 4⟩

def PopLine.move (line : PopLine) (pops aEdge qEdge : Bool) : PopLine where
  pop := line.pop ^^ pops
  action := if aEdge then shiftDown line.pop line.action else line.action
  ready := if qEdge then shiftDown (line.action.getLsbD 0) line.ready else line.ready

def RefillLine.move (line : RefillLine) (refills qEdge : Bool) : RefillLine where
  refill := line.refill ^^ refills
  queue := if qEdge then shiftDown line.refill line.queue else line.queue

/-- A toggle moves with the clock of the register in front of it. -/
def popMoves (aEdge qEdge : Bool) (place : Fin 12) : Fin 12 :=
  if place < 6 then if aEdge then place + 1 else place
  else if place < 11 && qEdge then place + 1 else place

def refillMoves (qEdge : Bool) (place : Fin 5) : Fin 5 := if place < 4 && qEdge then place + 1 else place

theorem popLine_move : ∀ (new aEdge qEdge : Bool) (place : Fin 12),
    (popLine new place).move false aEdge qEdge = popLine new (popMoves aEdge qEdge place) := by
  decide

theorem popLine_pop : ∀ new aEdge qEdge : Bool,
    (popLine new 11).move true aEdge qEdge = popLine (!new) 0 := by
  decide

theorem refillLine_move : ∀ (new qEdge : Bool) (place : Fin 5),
    (refillLine new place).move false qEdge = refillLine new (refillMoves qEdge place) := by
  decide

theorem refillLine_refill : ∀ new qEdge : Bool,
    (refillLine new 4).move true qEdge = refillLine (!new) 0 := by
  decide

theorem popLine_seen : ∀ (new : Bool) (place : Fin 12),
    ((popLine new place).action.getLsbD 3 ^^ (popLine new place).action.getLsbD 2) = (place == 3) ∧
    ((popLine new place).ready.getLsbD 1 ^^ (popLine new place).ready.getLsbD 0) = (place == 10) ∧
    ((popLine new place).pop ^^ (popLine new place).action.getLsbD 2) = decide (place ≤ 3) := by
  decide

theorem refillLine_seen : ∀ (new : Bool) (place : Fin 5),
    ((refillLine new place).queue.getLsbD 1 ^^ (refillLine new place).queue.getLsbD 0) = (place == 3) := by
  decide

/-! ### The crossing -/

def popLineOf (s : Queue Action) : PopLine := ⟨s.rqPopXor, s.raPopXor, s.rqReadyXor⟩

def refillLineOf (s : Queue Action) : RefillLine := ⟨s.raRefillXor, s.rqRefillXor⟩

/-- Nothing has been offered to the bus since the last action was taken. -/
structure Empty (s : Queue Action) (refill : Fin 5) : Prop where
  raValid : s.raValid = false
  arrived : refill = 4
  rqValid : s.rqValid = false

/-- The action at the channel's output is on its way to the bus, or it is there. -/
structure Offered (s : Queue Action) (refill : Fin 5) : Prop where
  raValid : s.raValid = true
  valid : s.channel.valid = true
  rqValid : s.rqValid = (refill == 4)
  copied : refill = 4 → s.rqChannel = s.channel

/-- The action has been popped, and the channel has not seen it yet. -/
structure Popped (s : Queue Action) (refill : Fin 5) : Prop where
  raValid : s.raValid = true
  valid : s.channel.valid = true
  arrived : refill = 4
  rqValid : s.rqValid = false

/-- Each line holds at most one toggle, and where the one of the last pop is says what is known of
the action. -/
structure Crossing (s : Queue Action) (pop : Fin 12) (refill : Fin 5) : Prop where
  popLine : ∃ new, s.popLineOf = Queue.popLine new pop
  refillLine : ∃ new, s.refillLineOf = Queue.refillLine new refill
  ready : s.rqReady = (pop == 11)
  before : pop ≤ 3 → Popped s refill
  behind : 3 < pop → Empty s refill ∨ Offered s refill

section Edge

variable {s : Queue Action} {i : QueueIn Action} {pop : Fin 12} {refill : Fin 5}

/-- Whether a pop takes effect. -/
def pops (s : Queue Action) (i : QueueIn Action) : Bool := i.qEdge.elim false s.sqPop

def refills (s : Queue Action) (i : QueueIn Action) : Bool := i.aEdge.isSome && s.saRefill

theorem step_popLine (s : Queue Action) (i : QueueIn Action) : (s.step i).popLineOf =
    s.popLineOf.move (s.pops i) i.aEdge.isSome i.qEdge.isSome := by
  obtain ⟨aEdge, qEdge⟩ := i
  cases aEdge <;> cases qEdge <;> simp [step, popLineOf, PopLine.move, pops, actionEdge, queueEdge]

theorem step_refillLine (s : Queue Action) (i : QueueIn Action) : (s.step i).refillLineOf =
    s.refillLineOf.move (s.refills i) i.qEdge.isSome := by
  obtain ⟨aEdge, qEdge⟩ := i
  cases aEdge <;> cases qEdge <;> simp [step, refillLineOf, RefillLine.move, refills, actionEdge, queueEdge]

theorem Crossing.seen (crossing : Crossing s pop refill) :
    s.saPop = (pop == 3) ∧ s.sqReady = (pop == 10) ∧ s.sqRefill = (refill == 3) ∧
      (s.rqPopXor ^^ s.raPopXor.getLsbD 2) = decide (pop ≤ 3) := by
  obtain ⟨new, line⟩ := crossing.popLine
  obtain ⟨new', line'⟩ := crossing.refillLine
  obtain ⟨action, ready, way⟩ := popLine_seen new pop
  have queue := refillLine_seen new' refill
  rw [← line] at action ready way
  rw [← line'] at queue
  exact ⟨action, ready, queue, way⟩

theorem step_queue (s : Queue Action) (i : QueueIn Action) :
    (s.step i).rqValid = (if i.qEdge.isSome then s.sqRefill || (s.rqValid && !s.pops i) else s.rqValid) ∧
    (s.step i).rqReady = (if i.qEdge.isSome then s.sqReady || (s.rqReady && !s.pops i) else s.rqReady) ∧
    (s.step i).rqChannel = (if i.qEdge.isSome && s.sqRefill then s.channel else s.rqChannel) := by
  obtain ⟨aEdge, qEdge⟩ := i
  cases qEdge <;> simp [step, pops, queueEdge]

theorem step_action (s : Queue Action) (i : QueueIn Action) :
    (s.step i).raValid = (if i.aEdge.isSome then s.saValid else s.raValid) ∧
    (s.step i).channel = (if s.aStall then s.channel else i.aEdge.getD s.channel) := by
  obtain ⟨aEdge, qEdge⟩ := i
  cases aEdge <;> simp [step, actionEdge]

/-- A pop takes effect on the action at the channel's output. -/
theorem pops_offered (crossing : Crossing s pop refill) (effect : s.pops i = true) :
    i.qEdge.isSome = true ∧ pop = 11 ∧ refill = 4 ∧ Offered s refill := by
  obtain ⟨raw, edge, command⟩ : ∃ raw, i.qEdge = some raw ∧ s.sqPop raw = true := by
    cases edge : i.qEdge with
    | none => simp [pops, edge] at effect
    | some raw => exact ⟨raw, rfl, by simpa [pops, edge] using effect⟩
  simp only [sqPop, Bool.and_eq_true] at command
  have last : pop = 11 := by simpa [command.2] using crossing.ready.symm
  rcases crossing.behind (by rw [last]; decide) with empty | offered
  · simp [empty.rqValid] at command
  · have there : refill = 4 := by simpa [command.1.2] using offered.rqValid.symm
    exact ⟨by simp [edge], last, there, offered⟩

theorem pop_edge (crossing : Crossing s pop refill) (effect : s.pops i = true) :
    Crossing (s.step i) 0 refill := by
  obtain ⟨edge, last, there, offered⟩ := pops_offered crossing effect
  obtain ⟨saPop, sqReady, sqRefill, -⟩ := crossing.seen
  obtain ⟨rqValid, rqReady, -⟩ := step_queue s i
  obtain ⟨raValid, channel⟩ := step_action s i
  obtain ⟨new, line⟩ := crossing.popLine
  obtain ⟨new', line'⟩ := crossing.refillLine
  have kept : s.aStall = true := by simp [aStall, saValid, saPop, last, offered.valid]
  have none : s.refills i = false := by simp [refills, saRefill, offered.raValid]
  refine ⟨⟨!new, ?_⟩, ⟨new', ?_⟩, ?_, fun _ => ⟨?_, ?_, there, ?_⟩, ?_⟩
  · rw [step_popLine, effect, line, last, popLine_pop]
  · rw [step_refillLine, none, line', refillLine_move, there]
    cases i.qEdge.isSome <;> rfl
  · rw [rqReady, edge, effect, sqReady, last]
    simp
  · rw [raValid, offered.raValid]
    split
    · exact kept
    · rfl
  · rw [channel, if_pos kept, offered.valid]
  · rw [rqValid, edge, effect, sqRefill, there]
    simp
  · exact fun far => absurd far (by decide)

theorem moves_ready : ∀ (aEdge qEdge : Bool) (place : Fin 12),
    (if qEdge then (place == 10) || ((place == 11) && !false) else place == 11) =
      (popMoves aEdge qEdge place == 11) := by
  decide

theorem moves_before : ∀ (aEdge qEdge : Bool) (place : Fin 12), place ≤ 3 →
    (popMoves aEdge qEdge place ≤ 3 ∧ (aEdge = true → place ≠ 3)) ∨
      (place = 3 ∧ aEdge = true ∧ 3 < popMoves aEdge qEdge place) := by
  decide

theorem moves_behind : ∀ (aEdge qEdge : Bool) (place : Fin 12), 3 < place →
    3 < popMoves aEdge qEdge place := by
  decide

theorem moves_arrives : ∀ (qEdge : Bool) (place : Fin 5),
    (if qEdge then (place == 3) || ((place == 4) && !false) else place == 4) =
      (refillMoves qEdge place == 4) := by
  decide

/-- An edge without a pop moves the toggles on; what is known of the action has to be shown. -/
theorem crossing_of {refill' : Fin 5} (crossing : Crossing s pop refill) (none : s.pops i = false)
    (line : ∃ new, (s.step i).refillLineOf = refillLine new refill')
    (before : popMoves i.aEdge.isSome i.qEdge.isSome pop ≤ 3 → Popped (s.step i) refill')
    (behind : 3 < popMoves i.aEdge.isSome i.qEdge.isSome pop →
      Empty (s.step i) refill' ∨ Offered (s.step i) refill') :
    Crossing (s.step i) (popMoves i.aEdge.isSome i.qEdge.isSome pop) refill' := by
  obtain ⟨new, pops_line⟩ := crossing.popLine
  obtain ⟨-, sqReady, -, -⟩ := crossing.seen
  refine ⟨⟨new, ?_⟩, line, ?_, before, behind⟩
  · rw [step_popLine, none, pops_line, popLine_move]
  · rw [(step_queue s i).2.1, none, sqReady, crossing.ready]
    exact moves_ready _ _ _

theorem refill_stays (crossing : Crossing s pop refill) (none : s.refills i = false) :
    ∃ new, (s.step i).refillLineOf = refillLine new (refillMoves i.qEdge.isSome refill) := by
  obtain ⟨new, line⟩ := crossing.refillLine
  exact ⟨new, by rw [step_refillLine, none, line, refillLine_move]⟩

theorem popped_edge (crossing : Crossing s pop refill) (none : s.pops i = false) (early : pop ≤ 3) :
    Crossing (s.step i) (popMoves i.aEdge.isSome i.qEdge.isSome pop) refill := by
  obtain ⟨isValid, valid, arrived, quiet⟩ := crossing.before early
  obtain ⟨saPop, -, sqRefill, -⟩ := crossing.seen
  obtain ⟨rqValid, -, -⟩ := step_queue s i
  obtain ⟨raValid, channel⟩ := step_action s i
  have silent : (s.step i).rqValid = false := by
    rw [rqValid, sqRefill, arrived, quiet]
    simp
  have line := refill_stays crossing (i := i) (by simp [refills, saRefill, isValid])
  have same : refillMoves i.qEdge.isSome refill = refill := by
    rw [arrived]
    cases i.qEdge.isSome <;> rfl
  rw [same] at line
  apply crossing_of crossing none line
  · intro stays
    rcases moves_before i.aEdge.isSome i.qEdge.isSome pop early with ⟨-, other⟩ | ⟨-, -, leaves⟩
    · cases edge : i.aEdge with
      | none => exact ⟨by simp [raValid, edge, isValid], by simp [channel, edge, valid], arrived, silent⟩
      | some next =>
          have kept : s.saValid = true := by simp [saValid, saPop, other (by simp [edge]), valid]
          exact ⟨by simp [raValid, edge, kept], by simp [channel, aStall, kept, valid], arrived, silent⟩
    · exact absurd stays (not_le.2 leaves)
  · intro far
    rcases moves_before i.aEdge.isSome i.qEdge.isSome pop early with ⟨stays, -⟩ | ⟨last, edge, -⟩
    · exact absurd stays (not_le.2 far)
    · exact .inl ⟨by simp [raValid, edge, saValid, saPop, last], arrived, silent⟩

theorem empty_edge (crossing : Crossing s pop refill) (none : s.pops i = false) (late : 3 < pop)
    (empty : Empty s refill) :
    ∃ refill', Crossing (s.step i) (popMoves i.aEdge.isSome i.qEdge.isSome pop) refill' := by
  obtain ⟨isValid, arrived, quiet⟩ := empty
  obtain ⟨saPop, -, sqRefill, -⟩ := crossing.seen
  obtain ⟨rqValid, -, -⟩ := step_queue s i
  obtain ⟨raValid, channel⟩ := step_action s i
  have other : (pop == 3) = false := by
    rw [beq_eq_false_iff_ne]
    exact fun same => absurd late (by rw [same]; decide)
  have silent : (s.step i).rqValid = false := by
    rw [rqValid, sqRefill, arrived, quiet]
    simp
  have far := moves_behind i.aEdge.isSome i.qEdge.isSome pop late
  cases begins : s.refills i with
  | true =>
      -- The channel has a new action, and the toggle sets out.
      simp only [refills, saRefill, Bool.and_eq_true] at begins
      obtain ⟨new, line⟩ := crossing.refillLine
      have started : (s.step i).refillLineOf = refillLine (!new) 0 := by
        rw [step_refillLine, line, arrived, refills, saRefill, begins.1, begins.2.1, isValid]
        exact refillLine_refill _ _
      have kept : s.saValid = true := by simp [saValid, saPop, other, begins.2.1]
      refine ⟨0, crossing_of crossing none ⟨_, started⟩ (fun near => absurd near (not_le.2 far)) fun _ => .inr ?_⟩
      exact ⟨by simp [raValid, begins.1, kept], by simp [channel, aStall, kept, begins.2.1], by simp [silent],
        fun zero => absurd zero (by decide)⟩
  | false =>
      have line := refill_stays crossing begins
      have same : refillMoves i.qEdge.isSome refill = 4 := by
        rw [arrived]
        cases i.qEdge.isSome <;> rfl
      rw [same] at line
      refine ⟨4, crossing_of crossing none line (fun near => absurd near (not_le.2 far)) fun _ => .inl ?_⟩
      refine ⟨?_, rfl, silent⟩
      rw [raValid, isValid]
      cases edge : i.aEdge.isSome with
      | false => rfl
      | true =>
          have invalid : s.channel.valid = false := by simpa [refills, saRefill, edge, isValid] using begins
          simp [saValid, invalid]

theorem offered_edge (crossing : Crossing s pop refill) (none : s.pops i = false) (late : 3 < pop)
    (offered : Offered s refill) :
    ∃ refill', Crossing (s.step i) (popMoves i.aEdge.isSome i.qEdge.isSome pop) refill' := by
  obtain ⟨isValid, valid, there, copied⟩ := offered
  obtain ⟨saPop, -, sqRefill, -⟩ := crossing.seen
  obtain ⟨rqValid, -, rqChannel⟩ := step_queue s i
  obtain ⟨raValid, channel⟩ := step_action s i
  have other : (pop == 3) = false := by
    rw [beq_eq_false_iff_ne]
    exact fun same => absurd late (by rw [same]; decide)
  have kept : s.saValid = true := by simp [saValid, saPop, other, valid]
  have far := moves_behind i.aEdge.isSome i.qEdge.isSome pop late
  have line := refill_stays crossing (i := i) (by simp [refills, saRefill, isValid])
  refine ⟨_, crossing_of crossing none line (fun near => absurd near (not_le.2 far)) fun _ => .inr ?_⟩
  refine ⟨?_, by simp [channel, aStall, kept, valid], ?_, ?_⟩
  · rw [raValid, kept, isValid]
    exact ite_self _
  · rw [rqValid, none, sqRefill, there]
    exact moves_arrives _ _
  · intro last
    rw [rqChannel, channel, aStall, kept, if_pos rfl, sqRefill]
    cases arrives : i.qEdge.isSome && refill == 3 with
    | true => rfl
    | false =>
        have before : refill = 4 := by
          have back : ∀ (qEdge : Bool) (place : Fin 5), (qEdge && place == 3) = false →
              refillMoves qEdge place = 4 → place = 4 := by decide
          exact back _ _ arrives last
        exact copied before

theorem crossing_edge (crossing : Crossing s pop refill) :
    ∃ pop' refill', Crossing (s.step i) pop' refill' := by
  cases effect : s.pops i with
  | true => exact ⟨_, _, pop_edge crossing effect⟩
  | false =>
      by_cases early : pop ≤ 3
      · exact ⟨_, _, popped_edge crossing effect early⟩
      · have late := not_le.1 early
        rcases crossing.behind late with empty | offered
        · exact ⟨_, empty_edge crossing effect late empty⟩
        · exact ⟨_, offered_edge crossing effect late offered⟩

/-- The action that has been popped and is still at the channel's output. -/
def held (s : Queue Action) : List Action :=
  if s.rqPopXor ^^ s.raPopXor.getLsbD 2 then [s.channel.action] else []

theorem Crossing.held_eq (crossing : Crossing s pop refill) :
    s.held = if pop ≤ 3 then [s.channel.action] else [] := by
  rw [held, crossing.seen.2.2.2]
  simp

theorem popped_eq (s : Queue Action) (i : QueueIn Action) :
    s.popped i = if s.pops i then [s.rqChannel.action] else [] := by
  obtain ⟨aEdge, qEdge⟩ := i
  cases qEdge <;> rfl

/-- What is popped and what is taken differ by the action in between. -/
theorem held_edge (crossing : Crossing s pop refill) :
    s.held ++ s.popped i = s.taken i ++ (s.step i).held := by
  obtain ⟨saPop, -, -, -⟩ := crossing.seen
  obtain ⟨-, channel⟩ := step_action s i
  rw [crossing.held_eq, popped_eq]
  cases effect : s.pops i with
  | true =>
      obtain ⟨-, last, there, offered⟩ := pops_offered crossing effect
      have kept : s.aStall = true := by simp [aStall, saValid, saPop, last, offered.valid]
      rw [(pop_edge crossing effect).held_eq, channel, if_pos kept, offered.copied there, last]
      simp [taken, kept]
  | false =>
      by_cases early : pop ≤ 3
      · have valid := (crossing.before early).valid
        rw [(popped_edge crossing effect early).held_eq, if_pos early]
        rcases moves_before i.aEdge.isSome i.qEdge.isSome pop early with ⟨stays, other⟩ | ⟨last, edge, leaves⟩
        · rw [if_pos stays, channel]
          cases edge : i.aEdge with
          | none => simp [taken, edge]
          | some next =>
              have kept : s.saValid = true := by simp [saValid, saPop, other (by simp [edge]), valid]
              simp [taken, aStall, kept]
        · rw [if_neg (not_le.2 leaves)]
          simp [taken, edge, valid, aStall, saValid, saPop, last]
      · have late := not_le.1 early
        have far := moves_behind i.aEdge.isSome i.qEdge.isSome pop late
        have other : (pop == 3) = false := by
          rw [beq_eq_false_iff_ne]
          exact fun same => absurd late (by rw [same]; decide)
        have next : (s.step i).held = [] := by
          rcases crossing.behind late with empty | offered
          · obtain ⟨_, next⟩ := empty_edge crossing effect late empty
            rw [next.held_eq, if_neg (not_le.2 far)]
          · obtain ⟨_, next⟩ := offered_edge crossing effect late offered
            rw [next.held_eq, if_neg (not_le.2 far)]
        rw [if_neg early, next]
        cases s.channel.valid <;> simp [taken, aStall, saValid, saPop, other]

end Edge

/-- Behind the resets: the channel shows what it will, and `rq_channel` has not been written. -/
def afterReset (channel junk : Channel Action) : Queue Action := { channel := channel, rqChannel := junk }

theorem crossing_start (channel junk : Channel Action) : Crossing (afterReset channel junk) 11 4 := by
  refine ⟨⟨false, ?_⟩, ⟨false, ?_⟩, rfl, fun early => absurd early (by decide), fun _ => .inl ⟨rfl, rfl, rfl⟩⟩
  · exact (by decide : (⟨false, 0, 0⟩ : PopLine) = popLine false 11)
  · exact (by decide : (⟨false, 0⟩ : RefillLine) = refillLine false 4)

/-- What the bus is shown as ready is the action at the channel's output. -/
theorem Crossing.shown {s : Queue Action} {pop : Fin 12} {refill : Fin 5} (crossing : Crossing s pop refill)
    (ready : s.rqReady = true) : s.held = [] ∧
      (s.rqValid = true → s.channel.valid = true ∧ s.rqChannel = s.channel) := by
  have last : pop = 11 := by simpa [ready] using crossing.ready.symm
  constructor
  · rw [crossing.held_eq, last]
    rfl
  · intro valid
    rcases crossing.behind (by rw [last]; decide) with empty | offered
    · simp [empty.rqValid] at valid
    · have there : refill = 4 := by simpa [valid] using offered.rqValid.symm
      exact ⟨offered.valid, offered.copied there⟩

/-- From a reset on, whatever the clocks do: the actions that are popped are those that are taken
from the channel, up to the one that has been popped last and is still there, and there is none
while the queue is ready; what the bus is shown then is the action at the channel's output; and
where it is shown nothing, nothing is popped. -/
theorem actions_handed_over (channel junk : Channel Action) (edges : List (QueueIn Action)) :
    let s := run step (afterReset channel junk) edges
    collect step popped (afterReset channel junk) edges =
      collect step taken (afterReset channel junk) edges ++ s.held ∧
    (s.rqReady = true → s.held = [] ∧
      (s.rqValid = true → s.channel.valid = true ∧ s.rqChannel = s.channel)) ∧
    (s.rqValid = false → ∀ i, s.popped i = [] ∧ (s.step i).rqPopXor = s.rqPopXor) := by
  intro s
  let inv : Queue Action → Prop := fun s => ∃ pop refill, Crossing s pop refill
  have start : inv (afterReset channel junk) := ⟨_, _, crossing_start channel junk⟩
  have kept : ∀ s i, inv s → True → inv (s.step i) := fun s i ⟨_, _, crossing⟩ _ => crossing_edge crossing
  have anyway : Along step (fun _ _ => True) (afterReset channel junk) edges :=
    along_of_forall (fun _ _ => trivial) _ _
  refine ⟨?_, ?_, ?_⟩
  · have balance := Along.conserves inv held popped taken kept
      (fun s i ⟨_, _, crossing⟩ _ => held_edge crossing) start anyway
    have none : held (afterReset channel junk) = [] := ((crossing_start channel junk).shown rfl).1
    rwa [none, List.nil_append] at balance
  · obtain ⟨pop, refill, crossing⟩ := Along.invariant inv kept start anyway
    exact crossing.shown
  · intro none i
    have quiet : s.pops i = false := by
      cases edge : i.qEdge <;> simp [pops, edge, sqPop, none]
    have line := congrArg PopLine.pop (step_popLine s i)
    rw [quiet] at line
    exact ⟨by rw [popped_eq, quiet]; rfl, by simpa [popLineOf, PopLine.move] using line⟩

end Queue

end WrCores.Eca
