import WrCores.Eca.MsiRuns

/-!
The writes and acknowledges of eca_msi: a channel that has been chosen goes through the pipeline with its
target, and what is left in the pipeline when a cycle begins is dropped.
-/

namespace WrCores.Eca.Msi

open Clocked

variable {n : Nat} {b : Msi n × Watch} {e : MsiIn n} {p : Fin 9}

/-- `r_select` is the channel chosen at the last edge. -/
def Picked (b : Msi n × Watch) : Prop :=
  match b.2.picked with
  | none => b.1.rSelect = 0
  | some (k, target) => k < n ∧ b.1.rSelect = BitVec.twoPow n k ∧ target = b.2.inForce k

/-- The registers of the next stage are the channel chosen before that, and its target. -/
def Found (b : Msi n × Watch) : Prop :=
  match b.2.found with
  | none => b.1.rReady = false
  | some (k, target) => k < n ∧ b.1.rReady = true ∧ b.1.rDelay = BitVec.twoPow n k ∧ b.1.rChannel = k ∧
      b.1.sAddress = target

/-- No write is under way, and the chosen channels request. -/
structure Idle (b : Msi n × Watch) : Prop where
  rCyc : b.1.rCyc = false
  rStb : b.1.rStb = false
  opened : b.2.opened = none
  picked : ∀ v, b.2.picked = some v → ∃ request, b.2.asked v.1 = some request
  found : ∀ v, b.2.found = some v → ∃ request, b.2.asked v.1 = some request

/-- The write of the service `v` is under way, and its channel requests. -/
structure Busy (b : Msi n × Watch) (v : Service) : Prop where
  rCyc : b.1.rCyc = true
  inside : v.channel < n
  requesting : v.requesting = true
  writing : b.2.writing = some (v.channel, v.target)
  rMask : b.1.rMask = BitVec.twoPow n v.channel
  rAddress : b.1.rAddress = v.target
  rNum : b.1.rNum = v.num
  rCode : b.1.rCode = v.code
  asked : b.2.asked v.channel = some (v.num, v.code)
  opened : b.2.opened = if b.1.rStb then none else some v

structure Kept (b : Msi n × Watch) : Prop where
  safe : ∃ p, Safe b p
  picked : Picked b
  found : Found b
  bus : Idle b ∨ ∃ v, Busy b v
  served : ∀ v ∈ b.2.served, v.channel < n ∧ v.requesting = true

/-- The events of the services so far. -/
def expected (w : Watch) : List (Event n) :=
  w.served.flatMap Service.events ++ w.opened.toList.map fun v => .write v.target (dat v.num v.code)

theorem getLsbD_select {k : Nat} (inside : k < n) : (BitVec.twoPow n k).getLsbD k = true := by
  simp [inside]

theorem visible_select {k : Nat} (inside : k < n) (select : b.1.rSelect = BitVec.twoPow n k) : Visible b.1 k := by
  right; right; right; right
  rw [select]
  exact getLsbD_select inside

/-- The channel that is chosen is in range, enabled on this side and requests. -/
theorem pick_some {s : Msi n} {i : MsiPorts n} {k : Nat} (chosen : s.pick i = some k) :
    k < n ∧ s.riEnable.getLsbD k = true ∧ i.stb.getLsbD k = true := by
  rw [pick, List.find?_range_eq_some, sPending, BitVec.getLsbD_and, Bool.and_eq_true, List.mem_range] at chosen
  exact ⟨chosen.2.1, chosen.1⟩

theorem Picked.step (picked : Picked b) (safe : Safe b p) (fair : Fair b e) : Picked (stepBoth b e) := by
  have kept : ∀ k, Visible b.1 k → (stepBoth b e).2.inForce k = b.2.inForce k :=
    fun k visible => inForce_kept safe fair visible
  obtain ⟨bus, cEdge, iEdge⟩ := e
  cases iEdge with
  | none =>
      have same : (stepBoth b ⟨bus, cEdge, none⟩).2.picked = b.2.picked := by
        cases cEdge <;> rfl
      rw [Picked] at picked ⊢
      rw [same]
      cases chosen : b.2.picked with
      | none =>
          rw [chosen] at picked
          exact picked
      | some v =>
          rw [chosen] at picked
          obtain ⟨inside, select, target⟩ := picked
          exact ⟨inside, select, target.trans (kept _ (visible_select inside select)).symm⟩
  | some i =>
      have next : (stepBoth b ⟨bus, cEdge, some i⟩).2.picked =
          if b.1.rCyc then none else (b.1.pick i).map fun k => (k, b.2.inForce k) := by
        cases cEdge <;> rfl
      have select : (stepBoth b ⟨bus, cEdge, some i⟩).1.rSelect =
          if b.1.rCyc then 0 else (b.1.pick i).elim 0 (BitVec.twoPow n) := by
        rw [pick, ← lowest_bit]
        rfl
      rw [Picked, next, select]
      cases b.1.rCyc with
      | true => rfl
      | false =>
          simp only [Bool.false_eq_true, if_false]
          cases chosen : b.1.pick i with
          | none => rfl
          | some k =>
              obtain ⟨inside, enabled, -⟩ := pick_some chosen
              exact ⟨inside, rfl, (kept k (.inr (.inr (.inr (.inl enabled))))).symm⟩

theorem Found.step (found : Found b) (picked : Picked b) (safe : Safe b p) (fair : Fair b e) :
    Found (stepBoth b e) := by
  have apart : ∀ k, Visible b.1 k → b.1.sWen e.bus = true → e.bus.chan.val ≠ k :=
    fun k visible written => not_written safe fair visible written
  obtain ⟨bus, cEdge, iEdge⟩ := e
  cases iEdge with
  | none =>
      have same : (stepBoth b ⟨bus, cEdge, none⟩).2.found = b.2.found := by
        cases cEdge <;> rfl
      rw [Found] at found ⊢
      rw [same]
      exact found
  | some i =>
      have next : (stepBoth b ⟨bus, cEdge, some i⟩).2.found = if b.1.rCyc then none else b.2.picked := by
        cases cEdge <;> rfl
      have ready : (stepBoth b ⟨bus, cEdge, some i⟩).1.rReady = (!b.1.rCyc && decide (b.1.rSelect ≠ 0)) := rfl
      rw [Found, next, ready]
      cases b.1.rCyc with
      | true => rfl
      | false =>
          simp only [Bool.false_eq_true, if_false, Bool.not_false, Bool.true_and]
          rw [Picked] at picked
          cases chosen : b.2.picked with
          | none =>
              rw [chosen] at picked
              simp only at picked ⊢
              rw [picked]
              simp
          | some v =>
              rw [chosen] at picked
              obtain ⟨inside, select, target⟩ := picked
              have visible := visible_select inside select
              have channel : b.1.sChannel = v.1 := by
                rw [sChannel, select, decode_twoPow inside]
              have address : (stepBoth b ⟨bus, cEdge, some i⟩).1.sAddress = v.2 := by
                change (if b.1.sWen bus && decide (b.1.sChannel = bus.chan) then i.undefined
                  else b.1.cross b.1.sChannel) = v.2
                rw [channel, if_neg, safe.target _ visible, target]
                intro collides
                rw [Bool.and_eq_true, decide_eq_true_iff] at collides
                exact apart v.1 visible collides.1 collides.2.symm
              have some : b.1.rSelect ≠ 0 := by
                intro zero
                have bit := getLsbD_select inside
                rw [← select, zero] at bit
                simp at bit
              exact ⟨inside, by simpa using some, select, channel, address⟩

section Edge

variable {bus : MsiBus n} {c : Bool} {i : MsiPorts n}

theorem watch_edge (b : Msi n × Watch) :
    (stepBoth b ⟨bus, c, some i⟩).2 =
      { b.2.iEdge b.1 i with inForce := (stepBoth b ⟨bus, c, some i⟩).2.inForce } := by
  cases c <;> rfl

theorem watch_still (b : Msi n × Watch) :
    (stepBoth b ⟨bus, c, none⟩).2 = { b.2 with inForce := (stepBoth b ⟨bus, c, none⟩).2.inForce } := by
  cases c <;> rfl

/-- A request that is not acknowledged stays open. -/
theorem asked_next (fair : Fair b ⟨bus, c, some i⟩) {k : Nat} (inside : k < n) {num : BitVec 8} {code : BitVec 3}
    (asked : b.2.asked k = some (num, code)) (unanswered : (b.1.iAck i).getLsbD k = false) :
    (stepBoth b ⟨bus, c, some i⟩).2.asked k = some (num, code) := by
  obtain ⟨stb, sameNum, sameCode⟩ := fair.requests i rfl k inside (num, code) asked
  rw [watch_edge]
  simp only [Watch.iEdge]
  rw [stb, unanswered, sameNum, sameCode]
  rfl

theorem Idle.quiet (idle : Idle b) (fair : Fair b ⟨bus, c, some i⟩) : sAck i = false := by
  by_contra answer
  have cycle := (fair.answers i rfl (by simpa using answer)).1
  rw [idle.rCyc] at cycle
  exact Bool.false_ne_true cycle

theorem Idle.expected_step (idle : Idle b) (fair : Fair b ⟨bus, c, some i⟩) :
    (stepBoth b ⟨bus, c, some i⟩).2.served = b.2.served ∧ (stepBoth b ⟨bus, c, some i⟩).2.opened = none ∧
      b.1.seen ⟨bus, c, some i⟩ = [] := by
  have quiet := idle.quiet fair
  have still : b.1.writes i = false := by
    rw [writes, idle.rCyc]
    rfl
  refine ⟨?_, ?_, ?_⟩
  · rw [watch_edge]
    simp only [Watch.iEdge]
    rw [quiet]
    rfl
  · rw [watch_edge]
    simp only [Watch.iEdge]
    rw [quiet, still, idle.opened]
    rfl
  · simp only [seen]
    rw [still, quiet]
    rfl

/-- The next cycle begins with the channel that is at the end of the pipeline. -/
theorem Idle.step (idle : Idle b) (picked : Picked b) (found : Found b) (fair : Fair b ⟨bus, c, some i⟩) :
    Idle (stepBoth b ⟨bus, c, some i⟩) ∨ ∃ v, Busy (stepBoth b ⟨bus, c, some i⟩) v := by
  have quiet := idle.quiet fair
  have none : ∀ k, (b.1.iAck i).getLsbD k = false := by
    intro k
    rw [iAck, quiet]
    simp
  have cycle : (stepBoth b ⟨bus, c, some i⟩).1.rCyc = b.1.rReady := by
    change (if b.1.rCyc then _ else b.1.rReady) = b.1.rReady
    rw [idle.rCyc]
    rfl
  have strobe : (stepBoth b ⟨bus, c, some i⟩).1.rStb = b.1.rReady := by
    change (if b.1.rStb then _ else if b.1.rCyc then _ else b.1.rReady) = b.1.rReady
    rw [idle.rCyc, idle.rStb]
    rfl
  have opened := (idle.expected_step fair).2.1
  rw [Found] at found
  cases last : b.2.found with
  | none =>
      rw [last] at found
      left
      refine ⟨cycle.trans found, strobe.trans found, opened, ?_, ?_⟩
      · intro v chosen
        rw [watch_edge] at chosen ⊢
        simp only [Watch.iEdge, idle.rCyc, Bool.false_eq_true, if_false] at chosen ⊢
        obtain ⟨k, first, rfl⟩ := Option.map_eq_some_iff.mp chosen
        rw [(pick_some first).2.2, none k]
        exact ⟨_, rfl⟩
      · intro v chosen
        have before : b.2.picked = some v := by
          rw [watch_edge] at chosen
          simpa only [Watch.iEdge, idle.rCyc, Bool.false_eq_true, if_false] using chosen
        obtain ⟨request, asked⟩ := idle.picked v before
        rw [Picked, before] at picked
        exact ⟨request, asked_next fair picked.1 asked (none _)⟩
  | some v =>
      rw [last] at found
      obtain ⟨inside, ready, delay, channel, address⟩ := found
      obtain ⟨⟨num, code⟩, asked⟩ := idle.found v last
      obtain ⟨stb, sameNum, sameCode⟩ := fair.requests i rfl v.1 inside (num, code) asked
      right
      refine ⟨⟨v.1, v.2, num, code, true⟩, cycle.trans ready, inside, rfl, ?_, ?_, ?_, ?_, ?_, ?_, ?_⟩
      · rw [watch_edge]
        simp only [Watch.iEdge, idle.rCyc, Bool.false_eq_true, if_false]
        exact last
      · change (if b.1.rCyc then _ else b.1.rDelay) = _
        rw [idle.rCyc]
        exact delay
      · change (if b.1.rCyc then _ else b.1.sAddress) = _
        rw [idle.rCyc]
        exact address
      · change (if b.1.rCyc then _ else i.num b.1.rChannel) = _
        rw [idle.rCyc, channel]
        exact sameNum
      · change (if b.1.rCyc then _ else i.code b.1.rChannel) = _
        rw [idle.rCyc, channel]
        exact sameCode
      · exact asked_next fair inside asked (none _)
      · rw [opened, strobe, ready]
        rfl

/-- The request of the write under way is the one at the ports. -/
theorem Busy.service {v : Service} (busy : Busy b v) (fair : Fair b ⟨bus, c, some i⟩) : b.2.service i = some v := by
  obtain ⟨stb, sameNum, sameCode⟩ := fair.requests i rfl _ busy.inside _ busy.asked
  rw [Watch.service, busy.writing, Option.map_some, stb, sameNum, sameCode, ← busy.requesting]

/-- The write is on the books from the edge on at which the slave takes it. -/
theorem Busy.opened_edge {v : Service} (busy : Busy b v) (fair : Fair b ⟨bus, c, some i⟩) :
    (if b.1.writes i then b.2.service i else b.2.opened) = if b.1.rStb && i.stall then none else some v := by
  rw [writes, busy.rCyc, busy.service fair, busy.opened]
  cases b.1.rStb <;> cases i.stall <;> rfl

theorem Busy.seen_writes {v : Service} (busy : Busy b v) :
    (b.2.opened.toList.map fun v => (.write v.target (dat v.num v.code) : Event n)) ++
        (if b.1.writes i then [.write b.1.rAddress (dat b.1.rNum b.1.rCode)] else []) =
      if b.1.rStb && i.stall then [] else [.write v.target (dat v.num v.code)] := by
  rw [writes, busy.rCyc, busy.opened, busy.rAddress, busy.rNum, busy.rCode]
  cases b.1.rStb <;> cases i.stall <;> rfl

/-- The answer ends the cycle, and nothing of the pipeline is left. -/
theorem Busy.answered {v : Service} (busy : Busy b v) (fair : Fair b ⟨bus, c, some i⟩) (answer : sAck i = true) :
    Idle (stepBoth b ⟨bus, c, some i⟩) ∧ (stepBoth b ⟨bus, c, some i⟩).2.served = b.2.served ++ [v] ∧
      expected (stepBoth b ⟨bus, c, some i⟩).2 = expected b.2 ++ b.1.seen ⟨bus, c, some i⟩ := by
  have taken : (b.1.rStb && i.stall) = false := by
    cases strobe : b.1.rStb with
    | false => rfl
    | true => rw [(fair.answers i rfl answer).2 strobe]; rfl
  have opened : (stepBoth b ⟨bus, c, some i⟩).2.opened = none := by
    rw [watch_edge]
    simp only [Watch.iEdge]
    rw [answer]
    rfl
  have served : (stepBoth b ⟨bus, c, some i⟩).2.served = b.2.served ++ [v] := by
    rw [watch_edge]
    simp only [Watch.iEdge]
    rw [busy.opened_edge fair, taken, answer]
    rfl
  refine ⟨⟨?_, ?_, opened, ?_, ?_⟩, served, ?_⟩
  · change (if b.1.rCyc then !sAck i else _) = false
    rw [busy.rCyc, answer]
    rfl
  · change (if b.1.rStb then i.stall else if b.1.rCyc then b.1.rStb else _) = false
    rw [busy.rCyc]
    revert taken
    cases b.1.rStb <;> cases i.stall <;> simp
  · intro v chosen
    rw [watch_edge] at chosen
    simp [Watch.iEdge, busy.rCyc] at chosen
  · intro v chosen
    rw [watch_edge] at chosen
    simp [Watch.iEdge, busy.rCyc] at chosen
  · have writes := busy.seen_writes (i := i)
    rw [taken, if_neg Bool.false_ne_true] at writes
    simp only [expected, seen]
    rw [opened, served, List.append_assoc, ← List.append_assoc (List.map _ _), writes, iAck, answer, busy.rMask]
    simp [Service.events]

/-- Without an answer the write goes on. -/
theorem Busy.waiting {v : Service} (busy : Busy b v) (fair : Fair b ⟨bus, c, some i⟩) (silent : sAck i = false) :
    Busy (stepBoth b ⟨bus, c, some i⟩) v ∧ (stepBoth b ⟨bus, c, some i⟩).2.served = b.2.served ∧
      expected (stepBoth b ⟨bus, c, some i⟩).2 = expected b.2 ++ b.1.seen ⟨bus, c, some i⟩ := by
  have unanswered : (b.1.iAck i).getLsbD v.channel = false := by
    rw [iAck, silent]
    simp
  have opened : (stepBoth b ⟨bus, c, some i⟩).2.opened = if b.1.rStb && i.stall then none else some v := by
    rw [watch_edge]
    simp only [Watch.iEdge]
    rw [busy.opened_edge fair, silent]
    rfl
  have served : (stepBoth b ⟨bus, c, some i⟩).2.served = b.2.served := by
    rw [watch_edge]
    simp only [Watch.iEdge]
    rw [silent]
    rfl
  have strobe : (stepBoth b ⟨bus, c, some i⟩).1.rStb = (b.1.rStb && i.stall) := by
    change (if b.1.rStb then i.stall else if b.1.rCyc then b.1.rStb else _) = _
    rw [busy.rCyc]
    cases b.1.rStb <;> rfl
  refine ⟨⟨?_, busy.inside, busy.requesting, ?_, ?_, ?_, ?_, ?_, ?_, ?_⟩, served, ?_⟩
  · change (if b.1.rCyc then !sAck i else _) = true
    rw [busy.rCyc, silent]
    rfl
  · rw [watch_edge]
    simp only [Watch.iEdge]
    rw [busy.rCyc]
    exact busy.writing
  · change (if b.1.rCyc then b.1.rMask else _) = _
    rw [busy.rCyc]
    exact busy.rMask
  · change (if b.1.rCyc then b.1.rAddress else _) = _
    rw [busy.rCyc]
    exact busy.rAddress
  · change (if b.1.rCyc then b.1.rNum else _) = _
    rw [busy.rCyc]
    exact busy.rNum
  · change (if b.1.rCyc then b.1.rCode else _) = _
    rw [busy.rCyc]
    exact busy.rCode
  · exact asked_next fair busy.inside busy.asked unanswered
  · rw [opened, strobe]
  · have writes := busy.seen_writes (i := i)
    simp only [expected, seen]
    rw [opened, served, List.append_assoc, ← List.append_assoc (List.map _ _), writes, silent]
    cases b.1.rStb && i.stall <;> simp

end Edge

theorem Kept.step (kept : Kept b) (fair : Fair b e) :
    Kept (stepBoth b e) ∧ expected (stepBoth b e).2 = expected b.2 ++ b.1.seen e := by
  obtain ⟨p, safe⟩ := kept.safe
  have next := safe.step fair
  have picked := kept.picked.step safe fair
  have found := kept.found.step kept.picked safe fair
  obtain ⟨bus, c, iEdge⟩ := e
  cases iEdge with
  | none =>
      have served : (stepBoth b ⟨bus, c, none⟩).2.served = b.2.served := by
        rw [watch_still]
      refine ⟨⟨⟨_, next⟩, picked, found, ?_, ?_⟩, ?_⟩
      · rcases kept.bus with idle | ⟨v, busy⟩
        · left
          refine ⟨idle.rCyc, idle.rStb, ?_, ?_, ?_⟩ <;> rw [watch_still]
          · exact idle.opened
          · exact idle.picked
          · exact idle.found
        · right
          refine ⟨v, busy.rCyc, busy.inside, busy.requesting, ?_, busy.rMask, busy.rAddress, busy.rNum, busy.rCode,
            ?_, ?_⟩ <;> rw [watch_still]
          · exact busy.writing
          · exact busy.asked
          · exact busy.opened
      · rw [served]
        exact kept.served
      · rw [watch_still]
        exact (List.append_nil _).symm
  | some i =>
      rcases kept.bus with idle | ⟨v, busy⟩
      · obtain ⟨served, opened, nothing⟩ := idle.expected_step fair
        refine ⟨⟨⟨_, next⟩, picked, found, idle.step kept.picked kept.found fair, ?_⟩, ?_⟩
        · rw [served]
          exact kept.served
        · rw [nothing, List.append_nil, expected, expected, served, opened, idle.opened]
      · cases answer : sAck i with
        | false =>
            obtain ⟨still, served, events⟩ := busy.waiting fair answer
            refine ⟨⟨⟨_, next⟩, picked, found, .inr ⟨v, still⟩, ?_⟩, events⟩
            rw [served]
            exact kept.served
        | true =>
            obtain ⟨idle, served, events⟩ := busy.answered fair answer
            refine ⟨⟨⟨_, next⟩, picked, found, .inl idle, ?_⟩, events⟩
            intro u member
            rw [served, List.mem_append, List.mem_singleton] at member
            rcases member with before | rfl
            · exact kept.served u before
            · exact ⟨busy.inside, busy.requesting⟩

theorem kept_reset {start : Msi n} (reset : start.AfterReset) : Kept (start, { inForce := start.cross }) := by
  refine ⟨⟨8, ⟨?_, ?_, ?_⟩, ?_, ?_⟩, reset.rSelect, reset.rReady, .inl ⟨reset.rCyc, reset.rStb, rfl, ?_, ?_⟩, ?_⟩
  · rw [reset.riXor, reset.rcXor0]
    rfl
  · rw [reset.rcXor, reset.rcXor0]
    rfl
  · exact reset.rStall
  · intro k off
    constructor
    · simp [reset.riEnable2]
    · simp [reset.riEnable1]
    · simp [reset.riEnable]
    · simp [reset.rSelect]
  · intro k visible
    rfl
  · intro v chosen
    exact absurd chosen (Option.some_ne_none v).symm
  · intro v chosen
    exact absurd chosen (Option.some_ne_none v).symm
  · intro v member
    exact absurd member List.not_mem_nil

theorem kept_run (kept : Kept b) {events : List (MsiIn n)} (fair : Along stepBoth Fair b events) :
    Kept (run stepBoth b events) ∧ expected (run stepBoth b events).2 =
      expected b.2 ++ collect stepBoth (fun b e => b.1.seen e) b events := by
  induction events generalizing b with
  | nil => exact ⟨kept, (List.append_nil _).symm⟩
  | cons e rest ih =>
      rw [along_cons] at fair
      obtain ⟨next, here⟩ := kept.step fair.1
      obtain ⟨last, later⟩ := ih next fair.2
      refine ⟨last, ?_⟩
      rw [run_cons, later, here, collect_cons, List.append_assoc]

/-- In every run the ports show the writes of the services, each to the target that was in force for its
channel when it was chosen and with the number and code of the request of that channel, and behind each the one
acknowledge to that channel; the last one may still be due. -/
theorem interrupts_once (start : Msi n) (reset : start.AfterReset) (events : List (MsiIn n))
    (fair : Along stepBoth Fair (start, { inForce := start.cross }) events) :
    let w := (run stepBoth (start, { inForce := start.cross }) events).2
    collect stepBoth (fun b e => b.1.seen e) (start, { inForce := start.cross }) events =
        w.served.flatMap Service.events ++
          (w.opened.toList.map fun v => .write v.target (dat v.num v.code)) ∧
      ∀ v ∈ w.served ++ w.opened.toList, v.channel < n ∧ v.requesting = true := by
  intro w
  obtain ⟨kept, events⟩ := kept_run (kept_reset reset) fair
  refine ⟨events.symm, ?_⟩
  intro v member
  rw [List.mem_append] at member
  rcases member with before | last
  · exact kept.served v before
  · rcases kept.bus with idle | ⟨u, busy⟩
    · rw [idle.opened] at last
      exact absurd last List.not_mem_nil
    · rw [busy.opened] at last
      split at last
      · exact absurd last List.not_mem_nil
      · rw [Option.toList_some, List.mem_singleton] at last
        rw [last]
        exact ⟨busy.inside, busy.requesting⟩

section OneChannel

/-- One channel after the resets, with zeros in the memory. -/
def one : Msi 1 :=
  ⟨0, false, false, 0, fun _ => 0, 0, 0, 0, 0, 0, 0, false, false, false, 0, 0, 0, 0, 0, 0⟩

/-- An edge of `c_clk_i` alone. -/
def cTick (bus : MsiBus 1) : MsiIn 1 := ⟨bus, true, none⟩

/-- An edge of `i_clk_i` alone, with number 5 and code 3 at the channel. -/
def iTick (stb : BitVec 1) (ack : Bool) : MsiIn 1 :=
  ⟨{ chan := 0 }, false, some ⟨stb, fun _ => 5, fun _ => 3, false, ack, false, false, 0⟩⟩

/-- Target 1, enabled and disabled again; the request is chosen at the last edge that knows the enable. -/
def lastChoice : List (MsiIn 1) :=
  [cTick { chan := 0, targetStb := true, target := 1 }, cTick { chan := 0, enableStb := true, enable := true },
   iTick 0 false, iTick 0 false, iTick 0 false, cTick { chan := 0, enableStb := true },
   iTick 0 false, iTick 0 false, iTick 1 false, iTick 1 false]

/-- A fast `c_clk_i`: the bus may write again, target 2 and an enable, before `i_clk_i` has an edge. -/
def retarget : List (MsiIn 1) :=
  [cTick { chan := 0 }, cTick { chan := 0 }, cTick { chan := 0 }, cTick { chan := 0 },
   cTick { chan := 0, targetStb := true, target := 2 }, cTick { chan := 0, enableStb := true, enable := true }]

theorem one_reset : one.AfterReset := ⟨rfl, rfl, rfl, rfl, rfl, rfl, rfl, rfl, rfl, rfl, rfl, rfl⟩

set_option maxRecDepth 20000 in
theorem interrupts_once_one :
    let events := lastChoice ++ [iTick 1 false, iTick 1 true]
    Along stepBoth Fair (one, { inForce := one.cross }) events ∧
      collect stepBoth (fun b e => b.1.seen e) (one, { inForce := one.cross }) events =
        Service.events ⟨0, 1, 5, 3, true⟩ := by
  intro events
  have fair : Along stepBoth Fair (one, { inForce := one.cross }) events := by decide
  obtain ⟨shown, -⟩ := interrupts_once one one_reset events fair
  have booked : (run stepBoth (one, { inForce := one.cross }) events).2.served = [⟨0, 1, 5, 3, true⟩] ∧
      (run stepBoth (one, { inForce := one.cross }) events).2.opened = none := by decide
  rw [booked.1, booked.2] at shown
  exact ⟨fair, shown⟩

set_option maxRecDepth 20000 in
/-- A write begins with the old target after its channel has been enabled with the new one. And an answer to
no write, right behind an answer to one, acknowledges the channel again. -/
theorem stale_target :
    let b := run stepBoth (one, { inForce := one.cross }) (lastChoice ++ retarget)
    Along stepBoth Fair (one, { inForce := one.cross }) (lastChoice ++ retarget ++ [iTick 1 false, iTick 1 true]) ∧
      b.1.rCyc = false ∧ b.2.inForce 0 = 2 ∧
      collect stepBoth (fun b e => b.1.seen e) b [iTick 1 false, iTick 1 true, iTick 0 true] =
        [.write 1 (dat 5 3), .ack 1, .ack 1] := by
  decide

end OneChannel

end WrCores.Eca.Msi
