import Mathlib.Data.List.Induction
import WrCores.Clocked.HandOver
import WrCores.Clocked.Run

/-!
gc_pulse_synchronizer.vhd and gc_pulse_synchronizer2.vhd. The first raises `in_ext` for a pulse and lowers it when its
image is back; the second turns it over and waits for the image to follow. The registers of the two clocks make one
chain behind `in_ext`, so that the waves of a hand-over say what is on its way. The edges of the clocks come in any
order.
-/

namespace WrCores.Gencores

open Clocked HandOver

structure PulseSynchronizer where
  ready : Bool
  dPD0 : Bool
  inExt : Bool
  outExt : Bool
  dIn2out : BitVec 3
  dOut2in : BitVec 3
  qPO : Bool
  deriving DecidableEq, Repr

inductive PulseEvent
  | accepted
  | pulsed
  deriving DecidableEq, Repr

namespace PulseSynchronizer

def reset : PulseSynchronizer := ⟨true, false, false, false, 0, 0, false⟩

/-- What the two circuits do differently: `in_ext` and `ready` behind an edge of the sender, and the output. -/
structure Kind where
  ack : PulseSynchronizer → Bool → Bool × Bool
  pulse : PulseSynchronizer → Bool

def outFeedback (s : PulseSynchronizer) : Bool := s.dOut2in.getLsbD 2

def asks (s : PulseSynchronizer) (dP : Bool) : Bool := s.ready && dP && !s.dPD0

/-- gc_pulse_synchronizer.vhd -/
def level : Kind where
  ack s dP :=
    if s.asks dP then (true, false)
    else if s.inExt && s.outFeedback then (false, s.ready)
    else if !s.inExt && !s.outFeedback then (s.inExt, true)
    else (s.inExt, s.ready)
  pulse s := !s.outExt && s.dIn2out.getLsbD 2

/-- gc_pulse_synchronizer2.vhd -/
def toggle : Kind where
  ack s dP :=
    if s.asks dP then (!s.inExt, false)
    else if s.inExt == s.outFeedback then (s.inExt, true)
    else (s.inExt, s.ready)
  pulse s := s.outExt ^^ s.dIn2out.getLsbD 2

section Source

variable (kind : Kind) (s : PulseSynchronizer) (e : Edge)

def inExtNext : Bool := if e.ticks .sender then (kind.ack s e.request).1 else s.inExt

def outExtNext : Bool := if e.ticks .receiver then s.dIn2out.getLsbD 2 else s.outExt

/-- One edge of the sender's clock `clk_in_i`, of the receiver's clock `clk_out_i`, or of both; `request` is `d_p_i`. -/
def step : PulseSynchronizer where
  ready := if e.ticks .sender then (kind.ack s e.request).2 else s.ready
  dPD0 := if e.ticks .sender then e.request else s.dPD0
  inExt := s.inExtNext kind e
  outExt := s.outExtNext e
  dIn2out :=
    if e.ticks .receiver then
      (s.dIn2out.setWidth 2).concat (if e.fresh .receiver then s.inExtNext kind e else s.inExt)
    else s.dIn2out
  dOut2in :=
    if e.ticks .sender then (s.dOut2in.setWidth 2).concat (if e.fresh .sender then s.outExtNext e else s.outExt)
    else s.dOut2in
  qPO := if e.ticks .receiver then kind.pulse s else s.qPO

def accepts : Bool := e.ticks .sender && s.asks e.request

/-- The edges behind which `q_p_o` is high. -/
def pulses : Bool := e.ticks .receiver && kind.pulse s

def events : List PulseEvent :=
  (if s.accepts e then [PulseEvent.accepted] else []) ++ if s.pulses kind e then [PulseEvent.pulsed] else []

end Source

/-! ### The chain -/

def sides : List Side := [.receiver, .receiver, .receiver, .receiver, .sender, .sender, .sender]

def chain (s : PulseSynchronizer) : List Bool :=
  [s.dIn2out.getLsbD 0, s.dIn2out.getLsbD 1, s.dIn2out.getLsbD 2, s.outExt, s.dOut2in.getLsbD 0, s.dOut2in.getLsbD 1,
    s.dOut2in.getLsbD 2]

/-- `in_ext` has come to the first `front` registers or further. -/
def Come (n : Nat) (s : PulseSynchronizer) : Prop :=
  ∃ front rest, n ≤ front ∧ front + rest = sides.length ∧ s.chain = wave s.inExt front rest

def Full (s : PulseSynchronizer) : Prop := s.chain = List.replicate sides.length s.inExt

variable {kind : Kind} {s : PulseSynchronizer} {e : Edge} {n : Nat}

theorem chain_step : (s.step kind e).chain = shift e .sender s.inExt (s.inExtNext kind e) sides s.chain := by
  simp only [chain, step, sides, shift, next, outExtNext]
  cases e.ticks .receiver <;> cases e.ticks .sender <;> simp

theorem Full.come (full : s.Full) (inside : n ≤ sides.length) : s.Come n :=
  ⟨sides.length, 0, inside, rfl, by rw [wave_full]; exact full⟩

theorem Come.bit (come : s.Come n) (place : Nat) (inside : place < sides.length) (seen : place < n) :
    s.chain.getD place false = s.inExt := by
  obtain ⟨front, rest, upTo, total, chain⟩ := come
  rw [chain, wave_getD s.inExt (by omega), if_pos (by omega)]

/-- The image that comes back is the last register. -/
theorem Come.full_of_feedback (come : s.Come n) (back : s.outFeedback = s.inExt) : s.Full := by
  obtain ⟨front, rest, _, total, chain⟩ := come
  have last : s.chain.getD 6 false = s.inExt := back
  rw [chain, wave_getD s.inExt (by simp [total, sides])] at last
  have whole : 6 < front := by
    by_contra early
    simp [early] at last
  obtain rfl : front = sides.length := by simp [sides] at total ⊢; omega
  obtain rfl : rest = 0 := by omega
  rw [Full, chain, wave_full]

theorem Full.feedback (full : s.Full) : s.outFeedback = s.inExt := by
  have last := congrArg (·.getD 6 false) full
  exact last

theorem Come.step (come : s.Come n) (same : s.inExtNext kind e = s.inExt) : (s.step kind e).Come n ∧
    ∀ side, sides[n]? = some side → e.ticks side = true → (s.step kind e).Come (n + 1) := by
  obtain ⟨front, rest, upTo, total, chain⟩ := come
  obtain ⟨front', rest', further, total', moves, waves⟩ :=
    shift_wave (e := e) s.inExt .sender sides front rest total
  have shifted : (s.step kind e).chain = wave (s.step kind e).inExt front' rest' := by
    rw [chain_step, same, chain, waves]
    exact congrArg (wave · front' rest') same.symm
  refine ⟨⟨front', rest', by omega, total', shifted⟩, fun side place ticks => ⟨front', rest', ?_, total', shifted⟩⟩
  rcases Nat.eq_or_lt_of_le upTo with rfl | less
  · exact moves side place ticks
  · omega

theorem Full.step (full : s.Full) (same : s.inExtNext kind e = s.inExt) : (s.step kind e).Full := by
  obtain ⟨front, rest, upTo, total, chain⟩ := ((full.come le_rfl).step same).1
  obtain rfl : rest = 0 := by omega
  rw [Full, chain, wave_full, ← total, Nat.add_zero]

/-- A change of `in_ext` sends a new wave into a chain that is at rest. -/
theorem Full.turns (full : s.Full) (turned : s.inExtNext kind e = !s.inExt) : (s.step kind e).Come 0 := by
  obtain ⟨front, rest, total, begins⟩ := shift_begins (e := e) (!s.inExt) .sender sides
  refine ⟨front, rest, Nat.zero_le _, total, ?_⟩
  rw [chain_step, turned, full]
  rw [Bool.not_not] at begins
  rw [begins]
  exact congrArg (wave · front rest) turned.symm

theorem outExt_step : (s.step kind e).outExt = s.outExtNext e := rfl

/-- Where `in_ext` has come, it has come to all registers before. -/
theorem Come.before (come : s.Come n) {near far : Nat} (order : near ≤ far) (inside : far < sides.length)
    (seen : s.chain.getD far false = s.inExt) : s.chain.getD near false = s.inExt := by
  obtain ⟨front, rest, _, total, chain⟩ := come
  rw [chain, wave_getD s.inExt (by omega)] at seen ⊢
  by_cases late : far < front
  · rw [if_pos (by omega)]
  · simp [late] at seen

/-! ### What both circuits keep -/

/-- `marks` are the values of `in_ext` that stand for a pulse. -/
structure Laws (kind : Kind) (marks : Bool → Bool) : Prop where
  pulse : ∀ s, kind.pulse s = ((s.outExt ^^ s.dIn2out.getLsbD 2) && marks (s.dIn2out.getLsbD 2))
  asked : ∀ s dP, s.asks dP = true → marks (!s.inExt) = true → kind.ack s dP = (!s.inExt, false)
  turned : ∀ s dP, s.asks dP = false → (kind.ack s dP).1 ≠ s.inExt →
    s.outFeedback = s.inExt ∧ marks (!s.inExt) = false
  rises : ∀ s dP, s.asks dP = false → (s.ready = true → marks (!s.inExt) = true) → (kind.ack s dP).2 = true →
    (kind.ack s dP).1 = s.inExt ∧ marks (!s.inExt) = true ∧ (s.ready = true ∨ s.outFeedback = s.inExt)
  goes : ∀ s dP, s.ready = false → s.outFeedback = s.inExt →
    (kind.ack s dP).2 = true ∨ (kind.ack s dP).1 ≠ s.inExt

theorem level_laws : Laws level id where
  pulse s := by simp only [level]; cases s.outExt <;> cases s.dIn2out.getLsbD 2 <;> rfl
  asked s dP asks low := by
    have down : s.inExt = false := by simpa using low
    simp [level, asks, down]
  turned s dP none := by
    simp only [level, none, Bool.false_eq_true, if_false]
    cases s.inExt <;> cases s.outFeedback <;> simp
  rises s dP none := by
    simp only [level, none, Bool.false_eq_true, if_false]
    cases s.inExt <;> cases s.outFeedback <;> cases s.ready <;> simp
  goes s dP quiet := by
    simp only [level, asks, quiet, Bool.false_and, Bool.false_eq_true, if_false]
    cases s.inExt <;> cases s.outFeedback <;> simp

theorem toggle_laws : Laws toggle fun _ => true where
  pulse s := by simp [toggle]
  asked s dP asks _ := by simp [toggle, asks]
  turned s dP none := by
    simp only [toggle, none, Bool.false_eq_true, if_false]
    cases s.inExt <;> cases s.outFeedback <;> simp
  rises s dP none := by
    simp only [toggle, none, Bool.false_eq_true, if_false]
    cases s.inExt <;> cases s.outFeedback <;> simp
  goes s dP quiet := by
    simp only [toggle, asks, quiet, Bool.false_and, Bool.false_eq_true, if_false]
    cases s.inExt <;> cases s.outFeedback <;> simp

structure Inv (marks : Bool → Bool) (s : PulseSynchronizer) : Prop where
  come : s.Come 0
  full : s.ready = true → s.Full
  marked : s.ready = true → marks (!s.inExt) = true

/-- A pulse has been accepted whose image the output register has not seen. -/
def pending (marks : Bool → Bool) (s : PulseSynchronizer) : Bool := (s.outExt ^^ s.inExt) && marks s.inExt

variable {marks : Bool → Bool}

theorem accepts_iff : s.accepts e = true ↔ e.ticks .sender = true ∧ s.asks e.request = true := by
  rw [accepts, Bool.and_eq_true]

theorem ready_of_asks {dP : Bool} (asks : s.asks dP = true) : s.ready = true := by
  simp only [PulseSynchronizer.asks, Bool.and_eq_true] at asks
  exact asks.1.1

theorem Inv.accepted (laws : Laws kind marks) (inv : Inv marks s) (accepts : s.accepts e = true) :
    s.inExtNext kind e = (!s.inExt) ∧ (s.step kind e).ready = false := by
  obtain ⟨edge, asks⟩ := accepts_iff.1 accepts
  have asked := laws.asked s e.request asks (inv.marked (ready_of_asks asks))
  rw [inExtNext, step]
  simp only [edge, if_true, asked, and_self]

/-- Without a new pulse `in_ext` only moves when its image is back, and not to a mark. -/
theorem turned_full (laws : Laws kind marks) (inv : Inv marks s) (none : s.accepts e = false)
    (turned : s.inExtNext kind e ≠ s.inExt) : s.Full ∧ marks (!s.inExt) = false := by
  rw [inExtNext] at turned
  split at turned
  · rename_i edge
    have asks : s.asks e.request = false := by simpa [accepts, edge] using none
    obtain ⟨back, low⟩ := laws.turned s e.request asks turned
    exact ⟨inv.come.full_of_feedback back, low⟩
  · exact absurd rfl turned

theorem Inv.ready_next (laws : Laws kind marks) (inv : Inv marks s) (none : s.accepts e = false)
    (ready : (s.step kind e).ready = true) : s.inExtNext kind e = s.inExt ∧ marks (!s.inExt) = true ∧ s.Full := by
  change (if e.ticks .sender then (kind.ack s e.request).2 else s.ready) = true at ready
  rw [inExtNext]
  split at ready
  · rename_i edge
    have asks : s.asks e.request = false := by simpa [accepts, edge] using none
    obtain ⟨same, high, back⟩ := laws.rises s e.request asks inv.marked ready
    refine ⟨by rw [if_pos edge, same], high, ?_⟩
    rcases back with was | back
    · exact inv.full was
    · exact inv.come.full_of_feedback back
  · rename_i edge
    exact ⟨by rw [if_neg edge], inv.marked ready, inv.full ready⟩

theorem reset_inv (low : marks true = true) : Inv marks reset := by
  have full : reset.Full := rfl
  exact ⟨full.come (Nat.zero_le _), fun _ => full, fun _ => low⟩

theorem Inv.step (laws : Laws kind marks) (inv : Inv marks s) (e : Edge) : Inv marks (s.step kind e) := by
  have next : (s.step kind e).inExt = s.inExtNext kind e := rfl
  cases accepts : s.accepts e with
  | true =>
      obtain ⟨turned, busy⟩ := inv.accepted laws accepts
      have full := inv.full (ready_of_asks (accepts_iff.1 accepts).2)
      refine ⟨full.turns turned, fun ready => ?_, fun ready => ?_⟩ <;> rw [busy] at ready <;> cases ready
  | false =>
      refine ⟨?_, fun ready => ?_, fun ready => ?_⟩
      · by_cases same : s.inExtNext kind e = s.inExt
        · exact (inv.come.step same).1
        · exact (turned_full laws inv accepts same).1.turns (Bool.eq_not.2 same)
      · obtain ⟨same, _, full⟩ := inv.ready_next laws accepts ready
        exact full.step same
      · obtain ⟨same, high, _⟩ := inv.ready_next laws accepts ready
        rw [next, same, high]

/-! ### One pulse for each -/

theorem Full.bit (full : s.Full) (place : Nat) (inside : place < sides.length) : s.chain.getD place false = s.inExt :=
  (full.come inside).bit place inside (Nat.lt_succ_self place)

theorem Full.not_pending (full : s.Full) : pending marks s = false := by
  have last : s.outExt = s.inExt := full.bit 3 (by decide)
  simp [pending, last]

theorem Full.not_pulses (laws : Laws kind marks) (full : s.Full) : s.pulses kind e = false := by
  have last : s.outExt = s.inExt := full.bit 3 (by decide)
  have before : s.dIn2out.getLsbD 2 = s.inExt := full.bit 2 (by decide)
  rw [pulses, laws.pulse, last, before, Bool.xor_self, Bool.false_and, Bool.and_false]

/-- A pulse is accepted only when none is pending, and is then pending. -/
theorem Inv.begins (laws : Laws kind marks) (inv : Inv marks s) (accepts : s.accepts e = true) :
    pending marks s = false ∧ s.pulses kind e = false ∧ pending marks (s.step kind e) = true := by
  have ready := ready_of_asks (accepts_iff.1 accepts).2
  have full := inv.full ready
  have turned : (s.step kind e).inExt = !s.inExt := (inv.accepted laws accepts).1
  have last : (s.step kind e).outExt = s.inExt := by
    have here : s.outExt = s.inExt := full.bit 3 (by decide)
    have before : s.dIn2out.getLsbD 2 = s.inExt := full.bit 2 (by decide)
    change (if e.ticks .receiver then s.dIn2out.getLsbD 2 else s.outExt) = _
    rw [here, before, ite_self]
  refine ⟨full.not_pending, full.not_pulses laws, ?_⟩
  rw [pending, turned, last, inv.marked ready]
  cases s.inExt <;> rfl

/-- Without a new pulse the pending one stays until the output shows it. -/
theorem Inv.waits (laws : Laws kind marks) (inv : Inv marks s) (none : s.accepts e = false) :
    pending marks (s.step kind e) = (pending marks s && !s.pulses kind e) ∧
      (s.pulses kind e = true → pending marks s = true) := by
  have next : (s.step kind e).inExt = s.inExtNext kind e := rfl
  by_cases same : s.inExtNext kind e = s.inExt
  · have behind : s.outExt = s.inExt → s.dIn2out.getLsbD 2 = s.inExt :=
      inv.come.before (show 2 ≤ 3 by omega) (by decide)
    rw [pending, next, same, pending, pulses, laws.pulse, outExt_step, outExtNext]
    cases e.ticks .receiver
    · simp
    · revert behind
      cases s.inExt <;> cases s.outExt <;> cases s.dIn2out.getLsbD 2 <;> simp
  · obtain ⟨full, low⟩ := turned_full laws inv none same
    rw [full.not_pulses laws, full.not_pending, pending, next, Bool.eq_not.2 same, low, Bool.and_false]
    simp

/-! ### Runs -/

section Runs

/-- The events of a run: pulses are accepted and shown in turn. -/
def inTurn (n : Nat) (waits : Bool) : List PulseEvent :=
  (List.replicate n [PulseEvent.accepted, .pulsed]).flatten ++ if waits then [PulseEvent.accepted] else []

theorem inTurn_accepted : inTurn n false ++ [.accepted] = inTurn n true := by simp [inTurn]

theorem inTurn_pulsed : inTurn n true ++ [.pulsed] = inTurn (n + 1) false := by
  simp [inTurn, List.replicate_succ', List.flatten_append]

theorem Inv.run (laws : Laws kind marks) (inv : Inv marks s) (edges : List Edge) :
    Inv marks (run (PulseSynchronizer.step kind) s edges) := by
  induction edges generalizing s with
  | nil => exact inv
  | cons e rest ih => exact ih (inv.step laws e)

theorem Inv.events_step (laws : Laws kind marks) (inv : Inv marks s) :
    ∃ m, inTurn n (pending marks s) ++ s.events kind e = inTurn m (pending marks (s.step kind e)) := by
  cases accepts : s.accepts e with
  | true =>
      obtain ⟨none, quiet, begun⟩ := inv.begins laws accepts
      refine ⟨n, ?_⟩
      rw [events, accepts, quiet, none, begun, if_pos rfl, if_neg Bool.false_ne_true, List.append_nil, inTurn_accepted]
  | false =>
      obtain ⟨kept, shown⟩ := inv.waits laws accepts
      rw [events, accepts, kept, if_neg Bool.false_ne_true, List.nil_append]
      cases pulses : s.pulses kind e with
      | true => exact ⟨n + 1, by rw [shown pulses, if_pos rfl, inTurn_pulsed, Bool.not_true, Bool.and_false]⟩
      | false => exact ⟨n, by simp⟩

theorem run_events (laws : Laws kind marks) (low : marks true = true) (edges : List Edge) :
    ∃ m, collect (step kind) (events kind) reset edges = inTurn m (pending marks (run (step kind) reset edges)) := by
  induction edges using List.reverseRecOn with
  | nil => exact ⟨0, by simp [inTurn, pending, reset]⟩
  | append_singleton edges e ih =>
      obtain ⟨m, before⟩ := ih
      obtain ⟨m', here⟩ := ((reset_inv low).run laws edges).events_step laws (n := m) (e := e)
      exact ⟨m', by rw [collect_append, run_append, before, collect_cons, collect_nil, List.append_nil, here]; rfl⟩

/-! ### Progress -/

/-- Edges in which the receiver has four and then the sender four. -/
def Round (edges : List Edge) : Prop := ∃ first second, edges = first ++ second ∧
  4 ≤ first.countP (·.ticks .receiver) ∧ 4 ≤ second.countP (·.ticks .sender)

/-- Neither ready nor another `in_ext`. -/
def Stuck (high : Bool) (s : PulseSynchronizer) : Prop := s.ready = false ∧ s.inExt = high

/-- While it is stuck, every edge of one side brings the wave on. -/
theorem come_run {high : Bool} (side : Side) {goal : Nat} {edges : List Edge}
    (goes : ∀ t e m, n ≤ m → m < goal → t.Come m → Stuck high t → Stuck high (t.step kind e) → e.ticks side = true →
      (t.step kind e).Come (m + 1))
    (come : s.Come n) (stuck : Always (step kind) (Stuck high) s edges) (goal_le : n ≤ goal)
    (many : goal ≤ n + edges.countP (·.ticks side)) : (run (step kind) s edges).Come goal := by
  induction edges generalizing s n with
  | nil =>
      obtain rfl : goal = n := by simp at many; omega
      exact come
  | cons e rest ih =>
      have next : Stuck high (s.step kind e) := stuck.2.head
      have same : s.inExtNext kind e = s.inExt := next.2.trans stuck.1.2.symm
      have stays := (come.step same).1
      rw [List.countP_cons] at many
      by_cases there : n = goal
      · subst there
        exact ih (fun t e m from' before => absurd before (by omega)) stays stuck.2 le_rfl (Nat.le_add_right _ _)
      · cases edge : e.ticks side with
        | true =>
            have further := goes s e n le_rfl (by omega) come stuck.1 next edge
            refine ih (fun t e m from' => goes t e m (by omega)) further stuck.2 (by omega) ?_
            simp only [edge, if_true] at many
            omega
        | false =>
            simp only [edge, Bool.false_eq_true, if_false, Nat.add_zero] at many
            exact ih goes stays stuck.2 goal_le many

/-- The last register's edge ends the wait. -/
theorem not_stuck (laws : Laws kind marks) {high : Bool} (full : s.Full) (stuck : Stuck high s)
    (edge : e.ticks .sender = true) : ¬ Stuck high (s.step kind e) := by
  rintro ⟨quiet, same⟩
  change (if e.ticks .sender then (kind.ack s e.request).2 else s.ready) = false at quiet
  change s.inExtNext kind e = high at same
  rw [if_pos edge] at quiet
  rw [inExtNext, if_pos edge] at same
  rcases laws.goes s e.request stuck.1 full.feedback with up | turned
  · rw [up] at quiet
    cases quiet
  · exact turned (same.trans stuck.2.symm)

theorem Come.full (come : s.Come 7) : s.Full := come.full_of_feedback (come.bit 6 (by decide) (by decide))

theorem always_append {State Input : Type*} {next : State → Input → State} {holds : State → Prop} {t : State}
    {first second : List Input} (always : Always next holds t (first ++ second)) :
    Always next holds t first ∧ Always next holds (Clocked.run next t first) second := by
  induction first generalizing t with
  | nil => exact ⟨always.head, always⟩
  | cons i rest ih => exact ⟨⟨always.1, (ih always.2).1⟩, (ih always.2).2⟩

theorem sides_receiver : ∀ m < 4, sides[m]? = some .receiver := by decide

theorem sides_sender : ∀ m < 7, 4 ≤ m → sides[m]? = some .sender := by decide

theorem round_ends (laws : Laws kind marks) (inv : Inv marks s) {edges : List Edge} (round : Round edges)
    (high : Bool) : ¬ Always (step kind) (Stuck high) s edges := by
  intro stuck
  obtain ⟨first, second, rfl, receives, sends⟩ := round
  obtain ⟨before, behind⟩ := always_append stuck
  have keeps {t : PulseSynchronizer} {e : Edge} (now : Stuck high t) (next : Stuck high (t.step kind e)) :
      t.inExtNext kind e = t.inExt := next.2.trans now.2.symm
  have there : (run (step kind) s first).Come 4 := by
    refine come_run .receiver (fun t e m _ below come now next edge => ?_) inv.come before (by omega)
      (by omega)
    exact (come.step (keeps now next)).2 .receiver (sides_receiver m below) edge
  -- a wave that has come to the end cannot go on
  have impossible : (run (step kind) (run (step kind) s first) second).Come 8 := by
    refine come_run .sender (fun t e m above below come now next edge => ?_) there behind (by omega)
      (by omega)
    rcases Nat.lt_or_ge m 7 with inside | last
    · exact (come.step (keeps now next)).2 .sender (sides_sender m inside above) edge
    · obtain rfl : m = 7 := by omega
      exact absurd next (not_stuck laws come.full now edge)
  obtain ⟨front, rest, upTo, total, _⟩ := impossible
  simp only [sides, List.length_cons, List.length_nil] at total
  omega

theorem always_of_not_visits {State Input : Type*} {next : State → Input → State} {goal : State → Prop} {t : State}
    {inputs : List Input} (never : ¬ Visits next goal t inputs) : Always next (fun t => ¬ goal t) t inputs := by
  induction inputs generalizing t with
  | nil => exact never
  | cons i rest ih => exact ⟨fun now => never (.inl now), ih fun later => never (.inr later)⟩

theorem always_last {State Input : Type*} {next : State → Input → State} {holds : State → Prop} {t : State}
    {inputs : List Input} (always : Always next holds t inputs) : holds (Clocked.run next t inputs) := by
  induction inputs generalizing t with
  | nil => exact always
  | cons i rest ih => exact ih always.2

/-- A circuit that is never ready keeps an `in_ext` that can only turn to a mark. -/
theorem Inv.quiet (laws : Laws kind marks) (inv : Inv marks s) {edges : List Edge}
    (never : Always (PulseSynchronizer.step kind) (fun t => ¬ t.ready = true) s edges)
    (high : marks (!s.inExt) = true) : Always (PulseSynchronizer.step kind) (Stuck s.inExt) s edges := by
  induction edges generalizing s with
  | nil => exact ⟨Bool.eq_false_iff.2 never, rfl⟩
  | cons e rest ih =>
      have none : s.accepts e = false :=
        Bool.eq_false_iff.2 fun accepts => never.1 (ready_of_asks (accepts_iff.1 accepts).2)
      have same : (s.step kind e).inExt = s.inExt := by
        by_contra turned
        rw [(turned_full laws inv none turned).2] at high
        cases high
      have later := ih (inv.step laws e) never.2 (same ▸ high)
      exact ⟨⟨Bool.eq_false_iff.2 never.1, rfl⟩, same ▸ later⟩

/-- Of two rounds the first lowers `in_ext` and the second brings that back. -/
theorem level_falls (inv : Inv id s) {edges : List Edge} (high : s.inExt = true)
    (never : Always (step level) (fun t => ¬ t.ready = true) s edges) :
    Always (step level) (Stuck true) s edges ∨ (run (step level) s edges).inExt = false := by
  induction edges generalizing s with
  | nil => exact .inl ⟨Bool.eq_false_iff.2 never, high⟩
  | cons e rest ih =>
      have later := inv.step level_laws e
      cases next : (s.step level e).inExt with
      | true => exact (ih later next never.2).imp (fun stuck => ⟨⟨Bool.eq_false_iff.2 never.1, high⟩, stuck⟩) id
      | false =>
          have last : Always (step level) (Stuck false) (s.step level e) rest :=
            next ▸ later.quiet level_laws never.2 (by rw [next]; rfl)
          exact .inr (always_last last).2

/-- The four-phase synchronizer shows each pulse that it accepts once, before it accepts the next. It is ready again
after two rounds at most. -/
theorem level_synchronizes (edges : List Edge) :
    let s := run (step level) reset edges
    (∃ n waits, collect (step level) (events level) reset edges = inTurn n waits ∧ (s.ready = true → waits = false)) ∧
      ∀ first second, Round first → Round second →
        Visits (step level) (fun t => t.ready = true) s (first ++ second) := by
  intro s
  have inv : Inv id s := (reset_inv rfl).run level_laws edges
  refine ⟨?_, fun first second once again => ?_⟩
  · obtain ⟨n, told⟩ := run_events level_laws rfl edges
    exact ⟨n, _, told, fun ready => (inv.full ready).not_pending⟩
  · by_contra never
    obtain ⟨before, behind⟩ := always_append (always_of_not_visits never)
    cases high : s.inExt with
    | false => exact round_ends level_laws inv once false (high ▸ inv.quiet level_laws before (by rw [high]; rfl))
    | true =>
        rcases level_falls inv high before with stuck | fallen
        · exact round_ends level_laws inv once true stuck
        · have later := inv.run level_laws first
          exact round_ends level_laws later again false
            (fallen ▸ later.quiet level_laws behind (by rw [fallen]; rfl))

/-- The two-phase synchronizer does the same, and is ready after one round. -/
theorem toggle_synchronizes (edges : List Edge) :
    let s := run (step toggle) reset edges
    (∃ n waits, collect (step toggle) (events toggle) reset edges = inTurn n waits ∧
        (s.ready = true → waits = false)) ∧
      ∀ tail, Round tail → Visits (step toggle) (fun t => t.ready = true) s tail := by
  intro s
  have inv : Inv (fun _ => true) s := (reset_inv rfl).run toggle_laws edges
  refine ⟨?_, fun tail round => ?_⟩
  · obtain ⟨n, told⟩ := run_events toggle_laws rfl edges
    exact ⟨n, _, told, fun ready => (inv.full ready).not_pending⟩
  · by_contra never
    exact round_ends toggle_laws inv round s.inExt (inv.quiet toggle_laws (always_of_not_visits never) rfl)

end Runs

end PulseSynchronizer

end WrCores.Gencores
