import WrCores.Eca.ScanRuns

/-!
When eca_scan.vhd gives its deadlines back. A book kept beside the scanner says which slots are taken: a slot is booked
with the write and given back with the strobe, and nothing is written to a slot that is booked.
-/

namespace WrCores.Eca.Scan

open Clocked

variable {n lm cc e : Nat}

/-! ### The times of an entry -/

theorem lastVisit_between (lm : Nat) (i : BitVec n) (deadline : BitVec 64) :
    deadline.toNat < 2 ^ lm * lastVisit lm i deadline ∧
      2 ^ lm * lastVisit lm i deadline ≤ deadline.toNat + 2 ^ (n + lm + 1) := by
  have slot := i.isLt
  have below : 2 ^ (lm + 1) * i.toNat < 2 ^ (n + lm + 1) := by
    rw [show n + lm + 1 = lm + 1 + n by omega, Nat.pow_add 2 (lm + 1) n]
    exact Nat.mul_lt_mul_of_pos_left slot (Nat.two_pow_pos _)
  have whole := Nat.div_add_mod (deadline.toNat + 2 ^ (n + lm + 1) - 2 ^ (lm + 1) * i.toNat) (2 ^ (n + lm + 1))
  have rest := Nat.mod_lt (deadline.toNat + 2 ^ (n + lm + 1) - 2 ^ (lm + 1) * i.toNat) (Nat.two_pow_pos (n + lm + 1))
  rw [lastVisit_ticks]
  omega

/-- A deadline that is behind the cycle in which it is written into the table. -/
theorem isLate_of_passed {k : Nat} {i : BitVec n} {deadline : BitVec 64} (passed : deadline.toNat < 2 ^ lm * k) :
    isLate lm k i deadline = true := by
  have between := lastVisit_between lm i deadline
  apply decide_eq_true
  rw [← Nat.mul_lt_mul_left (Nat.two_pow_pos lm), Nat.mul_add, ← round_pow]
  omega

/-- The looks are whole cycles, so that it is enough to be less than one cycle short of a round. -/
theorem lastVisit_ge {k : Nat} {i : BitVec n} {deadline : BitVec 64} (ahead : 2 ^ lm * k ≤ deadline.toNat + 2 ^ lm) :
    k ≤ lastVisit lm i deadline := by
  have between := lastVisit_between lm i deadline
  rw [← Nat.lt_succ_iff, ← Nat.mul_lt_mul_left (Nat.two_pow_pos lm), Nat.mul_succ]
  omega

theorem not_late {k : Nat} {i : BitVec n} {deadline : BitVec 64}
    (ahead : 2 ^ lm * k + 2 ^ (n + lm + 1) ≤ deadline.toNat + 2 ^ lm) : isLate lm k i deadline = false := by
  rw [round_pow, ← Nat.mul_add] at ahead
  have after := lastVisit_ge (i := i) ahead
  exact decide_eq_false (by omega)

theorem isEarly_of_far {k : Nat} {i : BitVec n} {deadline : BitVec 64}
    (ahead : 2 ^ lm * k + 2 ^ (n + lm + 1) + 2 ^ (n + lm + 1 + cc) ≤ deadline.toNat + 2 ^ lm) :
    isEarly lm cc k i deadline = true := by
  rw [Nat.pow_add 2 (n + lm + 1), round_pow, Nat.mul_assoc (2 ^ lm), ← Nat.mul_add, ← Nat.mul_add] at ahead
  exact decide_eq_true (lastVisit_ge ahead)

theorem not_early {k : Nat} {i : BitVec n} {deadline : BitVec 64}
    (near : deadline.toNat < 2 ^ lm * k + 2 ^ (n + lm + 1 + cc)) : isEarly lm cc k i deadline = false := by
  have between := lastVisit_between lm i deadline
  apply decide_eq_false
  rw [Nat.not_le, ← Nat.mul_lt_mul_left (Nat.two_pow_pos lm), Nat.mul_add, Nat.mul_add, ← Nat.mul_assoc, ← round_pow,
    ← Nat.pow_add]
  omega

theorem passes_lt (lm cc k : Nat) (i : BitVec n) (deadline : BitVec 64) : passes lm cc k i deadline < 2 ^ cc := by
  have positive := Nat.two_pow_pos cc
  rw [passes]
  split
  next => exact positive
  next =>
    split
    next => omega
    next late early =>
      rw [isLate, decide_eq_true_iff] at late
      rw [isEarly, decide_eq_true_iff] at early
      exact Nat.div_lt_of_lt_mul (by omega)

/-- Everything goes out within the largest delay. -/
theorem visit_lt (cc k : Nat) (i : BitVec n) (deadline : BitVec 64) (ext : BitVec e) :
    2 ^ lm * (Scan.entry cc k i deadline ext : Entry n lm e).visit < 2 ^ lm * k + 2 ^ (n + lm + 1 + cc) := by
  have first := (firstVisit_spec i.isLt k).2.1
  have rounds : (passes lm cc k i deadline + 1) * round n ≤ 2 ^ cc * round n :=
    Nat.mul_le_mul_right _ (passes_lt lm cc k i deadline)
  rw [Nat.pow_add 2 (n + lm + 1), round_pow, Nat.mul_assoc (2 ^ lm), ← Nat.mul_add,
    Nat.mul_lt_mul_left (Nat.two_pow_pos lm), Nat.mul_comm (round n)]
  rw [Nat.add_mul, Nat.one_mul] at rounds
  change firstVisit n i.toNat k + passes lm cc k i deadline * round n < _
  omega

/-- What is shown with the strobe, when `time_i` is `now`: the window is the one of the next cycle. -/
structure Delivered (s : State n lm cc e) (now : Nat) (item : Item e) : Prop where
  ext : s.scanExt = item.ext
  low : s.scanLow = item.deadline.setWidth (n + lm + 1)
  inTime : item.time + 5 * 2 ^ lm + 2 ^ (n + lm + 1) ≤ item.deadline.toNat →
    item.deadline.toNat < item.time + 6 * 2 ^ lm + 2 ^ (n + lm + 1 + cc) →
      s.scanLate = false ∧ s.scanEarly = false ∧
        item.deadline.toNat < now + 2 ^ lm + 2 ^ (n + lm + 1) ∧ now + 2 ^ lm ≤ item.deadline.toNat
  passed : item.deadline.toNat < item.time + 6 * 2 ^ lm → s.scanLate = true ∧ s.scanEarly = false
  far : item.time + 5 * 2 ^ lm + 2 ^ (n + lm + 1) + 2 ^ (n + lm + 1 + cc) ≤ item.deadline.toNat →
    s.scanEarly = true ∧ s.scanLate = false

theorem turn_ticks {item : Item e} (whole : 2 ^ lm ∣ item.time) : 2 ^ lm * item.turn lm = item.time + 6 * 2 ^ lm := by
  rw [Item.turn, Nat.mul_add, Nat.mul_div_cancel' whole, Nat.mul_comm _ 6]

/-- The strobe comes two cycles after the look at which the deadline goes out. -/
theorem delivered_of_due {s : State n lm cc e} {k now : Nat} {i : BitVec n} {item : Item e}
    (whole : 2 ^ lm ∣ item.time)
    (time : now + 3 * 2 ^ lm = 2 ^ lm * k) (due : k = (item.entry lm cc i).visit + 2)
    (late : s.scanLate = (item.entry lm cc i).late) (early : s.scanEarly = (item.entry lm cc i).early)
    (ext : s.scanExt = item.ext) (low : s.scanLow = item.deadline.setWidth (n + lm + 1)) : Delivered s now item := by
  have turn := turn_ticks whole
  have shown : now + 2 ^ lm = 2 ^ lm * (item.entry lm cc i).visit := by
    rw [due, Nat.mul_add] at time
    omega
  refine ⟨ext, low, ?_, ?_, ?_⟩
  · intro ahead near
    have timely : isLate lm (item.turn lm) i item.deadline = false := not_late (by omega)
    have close : isEarly lm cc (item.turn lm) i item.deadline = false := not_early (by omega)
    have visit : (item.entry lm cc i).visit + round n = lastVisit lm i item.deadline := entry_visit timely close
    have between := lastVisit_between lm i item.deadline
    rw [← visit, Nat.mul_add, ← round_pow] at between
    refine ⟨late.trans timely, early.trans ?_, ?_, ?_⟩
    · change (isEarly lm cc (item.turn lm) i item.deadline && _) = false
      rw [close, Bool.false_and]
    · rw [shown]
      exact between.1
    · rw [shown]
      exact Nat.le_of_add_le_add_right between.2
  · intro passed
    have behind : isLate lm (item.turn lm) i item.deadline = true := isLate_of_passed (by omega)
    refine ⟨late.trans behind, early.trans ?_⟩
    change (_ && !isLate lm (item.turn lm) i item.deadline) = false
    rw [behind, Bool.not_true, Bool.and_false]
  · intro far
    have positive := Nat.two_pow_pos (n + lm + 1 + cc)
    have timely : isLate lm (item.turn lm) i item.deadline = false := not_late (by omega)
    have distant : isEarly lm cc (item.turn lm) i item.deadline = true := isEarly_of_far (by omega)
    refine ⟨early.trans ?_, late.trans timely⟩
    change (isEarly lm cc (item.turn lm) i item.deadline && !isLate lm (item.turn lm) i item.deadline) = true
    rw [timely, distant]
    rfl

/-! ### The book -/

/-- The cycle, and the slots that are taken. -/
structure Book (n e : Nat) where
  cycle : Nat
  items : BitVec n → Option (Item e)

/-- One cycle: the inputs, and what undefined data of the table happens to be. -/
abbrev Tick (n lm cc e : Nat) := In n e × Cell n lm cc e

def Book.next (b : Book n e) (s : State n lm cc e) (input : In n e) : Book n e where
  cycle := b.cycle + 1
  items i :=
    if accepts s input i then some ⟨input.deadline, input.ext, input.time.toNat⟩ else settled s b.items i

def stepBoth (b : State n lm cc e × Book n e) (tick : Tick n lm cc e) : State n lm cc e × Book n e :=
  (b.1.step tick.2 tick.1, b.2.next b.1 tick.1)

/-- Nothing is written to a slot that is taken. -/
def Fair (b : State n lm cc e × Book n e) (tick : Tick n lm cc e) : Prop :=
  ∀ i, accepts b.1 tick.1 i = true → settled b.1 b.2.items i = none

/-- `time_i` goes on by the ticks of a cycle, in whole cycles, and its sums do not overflow. -/
structure Steady (ticks : List (Tick n lm cc e)) : Prop where
  chain : ticks.IsChain fun now next => next.1.time.toNat = now.1.time.toNat + 2 ^ lm
  whole : ∀ tick ∈ ticks, 2 ^ lm ∣ tick.1.time.toNat
  far : ∀ tick ∈ ticks, tick.1.time.toNat + 6 * 2 ^ lm + 2 ^ (n + lm + 1) ≤ 2 ^ 64

/-- The scanner after the wiping. -/
structure Running (s : State n lm cc e) (b : Book n e) : Prop where
  looks : Looks s b.cycle
  slots : ∀ i, Slot s b.cycle i (b.items i)
  whole : ∀ i item, b.items i = some item → 2 ^ lm ∣ item.time

/-- The cells are wiped in turn, and nothing is read. -/
structure Wiping (s : State n lm cc e) (b : Book n e) : Prop where
  rest : s.rReset.toNat < 2 ^ n
  cells : ∀ i : BitVec n, i.toNat < s.rReset.toNat → (s.table i).valid = false
  bypass : s.rBypass = true
  zero : s.rAi = Cell.zero
  wen1 : s.rWen1 = false
  wen2 : s.rWen2 = false
  wen3 : s.rWen3 = false
  stb : s.rStb = false
  time3 : 0 < s.rReset.toNat → s.rTime3.toNat = 2 ^ lm * (b.cycle + 1)
  time2 : 1 < s.rReset.toNat → s.rTime2.toNat = 2 ^ lm * b.cycle
  items : ∀ i, b.items i = none

theorem Paced.of_steady {ticks : List (Tick n lm cc e)} {tick : Tick n lm cc e} (steady : Steady (tick :: ticks)) :
    Paced lm (tick.1.time.toNat / 2 ^ lm + 3) tick.1 := by
  have whole := Nat.mul_div_cancel' (steady.whole tick List.mem_cons_self)
  have far := steady.far tick List.mem_cons_self
  constructor
  · rw [Nat.mul_add, whole, Nat.mul_comm _ 3]
  · rw [Nat.mul_add, Nat.mul_add, whole]
    omega

theorem paced_of_steady (s : State n lm cc e) (b : Book n e) {ticks : List (Tick n lm cc e)} (steady : Steady ticks)
    (cycle : ∀ tick rest, ticks = tick :: rest → b.cycle = tick.1.time.toNat / 2 ^ lm + 3) :
    Along stepBoth (fun b tick => Paced lm b.2.cycle tick.1) (s, b) ticks := by
  induction ticks generalizing s b with
  | nil => trivial
  | cons tick rest ih =>
      have here := cycle tick rest rfl
      have pace : Paced lm b.cycle tick.1 := here ▸ Paced.of_steady steady
      refine ⟨pace, ih _ _ ?_ ?_⟩
      · exact ⟨steady.chain.tail, fun t member => steady.whole t (List.mem_cons_of_mem _ member),
          fun t member => steady.far t (List.mem_cons_of_mem _ member)⟩
      · rintro next more rfl
        have time := (List.isChain_cons_cons.mp steady.chain).1
        change b.cycle + 1 = _
        rw [time, here, Nat.add_div_right _ (Nat.two_pow_pos lm)]

theorem running_step {s : State n lm cc e} {b : Book n e} {tick : Tick n lm cc e} (sizes : Sizes n lm cc)
    (running : Running s b) (paced : Paced lm b.cycle tick.1) (fair : Fair (s, b) tick) :
    Running (s.step tick.2 tick.1) (b.next s tick.1) where
  looks := looks_step tick.2 sizes.size running.looks paced
  slots i := slot_step tick.2 sizes running.looks paced (running.slots i) (fair i)
  whole i item booked := by
    change (if accepts s tick.1 i then _ else settled s b.items i) = _ at booked
    split at booked
    next =>
      obtain rfl := Option.some_inj.mp booked
      have time := paced.time
      have total : 2 ^ lm ∣ tick.1.time.toNat + 3 * 2 ^ lm := ⟨b.cycle, time⟩
      exact (Nat.dvd_add_iff_left ⟨3, Nat.mul_comm 3 _⟩).mpr total
    next =>
      rw [settled_eq] at booked
      split at booked
      next => exact absurd booked.symm (Option.some_ne_none item)
      next => exact running.whole i item booked

theorem sBo_wiping {s : State n lm cc e} {b : Book n e} (wiping : Wiping s b) : s.sBo = Cell.zero := by
  rw [State.sBo, wiping.bypass, if_pos rfl, wiping.zero]

theorem not_ready {s : State n lm cc e} (rest : s.rReset.toNat < 2 ^ n) : s.sReady = false := by
  rw [State.sReady, BitVec.msb_eq_decide, Nat.add_sub_cancel]
  exact decide_eq_false (by omega)

/-- One more cell is wiped; nothing else has a deadline. -/
theorem wiping_table {s : State n lm cc e} {b : Book n e} (sizes : Sizes n lm cc) (wiping : Wiping s b) {i : BitVec n}
    (done : i.toNat ≤ s.rReset.toNat) : (s.nextTable i).valid = false := by
  have stalled := not_ready wiping.rest
  have zero : fEcaOr (0 : BitVec cc) = false := by
    rw [fEcaOr_eq sizes.count]
    exact decide_eq_false (not_not_intro rfl)
  have wiped : s.sBi.valid = false := by
    change s.sNotZero = false
    rw [State.sNotZero, sBo_wiping wiping]
    exact zero
  rw [State.nextTable, State.sBWen, State.sBAddr, stalled, wiping.wen3]
  simp only [Bool.not_false, Bool.true_or, if_true, Bool.false_eq_true, if_false]
  by_cases here : i = s.rReset.setWidth n
  · rw [here, Function.update_self, wiped]
  · rw [Function.update_of_ne here]
    apply wiping.cells
    refine lt_of_le_of_ne done fun same => here (BitVec.eq_of_toNat_eq ?_)
    rw [BitVec.toNat_setWidth, same, Nat.mod_eq_of_lt wiping.rest]

theorem wiping_step {s : State n lm cc e} {b : Book n e} {tick : Tick n lm cc e} (sizes : Sizes n lm cc)
    (wiping : Wiping s b)
    (paced : Paced lm b.cycle tick.1) :
    Wiping (s.step tick.2 tick.1) (b.next s tick.1) ∨ Running (s.step tick.2 tick.1) (b.next s tick.1) := by
  have stalled := not_ready wiping.rest
  have reset : (s.step tick.2 tick.1).rReset.toNat = s.rReset.toNat + 1 := by
    have one : ((BitVec.ofBool true).setWidth (n + 1)).toNat = 1 := by
      have wide : 2 ^ 1 ≤ 2 ^ (n + 1) := Nat.pow_le_pow_right (by decide) (by omega)
      rw [BitVec.toNat_setWidth]
      exact Nat.mod_eq_of_lt wide
    have bound : s.rReset.toNat + 1 < 2 ^ (n + 1) := by
      have rest := wiping.rest
      rw [Nat.pow_succ]
      omega
    simp only [State.step, stalled, Bool.not_false]
    rw [BitVec.toNat_add, one, Nat.mod_eq_of_lt bound]
  have cells : ∀ i : BitVec n, i.toNat < s.rReset.toNat + 1 → ((s.step tick.2 tick.1).table i).valid = false :=
    fun i below => wiping_table sizes wiping (by omega)
  have bypass : (s.step tick.2 tick.1).rBypass = true := by
    simp only [State.step, stalled]
    rfl
  have zero : (s.step tick.2 tick.1).rAi = Cell.zero := by
    simp only [State.step, stalled]
    rfl
  have wen1 : (s.step tick.2 tick.1).rWen1 = false := by
    change (tick.1.wen && s.sReady) = false
    rw [stalled, Bool.and_false]
  have stb : (s.step tick.2 tick.1).rStb = false := by
    change (!s.sNotZero && s.sWeno) = false
    rw [State.sWeno, sBo_wiping wiping]
    exact (congrArg (!s.sNotZero && ·) (Bool.and_false _)).trans (Bool.and_false _)
  have time3 : (s.step tick.2 tick.1).rTime3.toNat = 2 ^ lm * (b.cycle + 1 + 1) := time3_step tick.2 s paced
  have time2 : 0 < s.rReset.toNat → (s.step tick.2 tick.1).rTime2.toNat = 2 ^ lm * (b.cycle + 1) := wiping.time3
  have items : ∀ i, (b.next s tick.1).items i = none := by
    intro i
    have idle : accepts s tick.1 i = false := by
      rw [accepts, stalled, Bool.and_false, Bool.false_and]
    change (if accepts s tick.1 i then _ else settled s b.items i) = none
    rw [idle, if_neg Bool.false_ne_true, settled_eq, wiping.stb, Bool.false_and, if_neg Bool.false_ne_true,
      wiping.items i]
  by_cases more : s.rReset.toNat + 1 < 2 ^ n
  · left
    exact ⟨reset ▸ more, reset ▸ cells, bypass, zero, wen1, wiping.wen1, wiping.wen2, stb, fun _ => time3,
      fun second => time2 (by omega), items⟩
  · right
    have last : s.rReset.toNat + 1 = 2 ^ n := by
      have rest := wiping.rest
      omega
    have two : 2 ^ 1 ≤ 2 ^ n := Nat.pow_le_pow_right (by decide) sizes.size
    have shown : (s.step tick.2 tick.1).sBo = Cell.zero := by
      rw [State.sBo, bypass, if_pos rfl, zero]
    have empty : ∀ i, ((s.step tick.2 tick.1).table i).valid = false := fun i => cells i (by have := i.isLt; omega)
    refine ⟨⟨?_, time3, time2 (by omega), ?_, ?_, fun _ _ i _ => empty i⟩, ?_, ?_⟩
    · rw [State.sReady, BitVec.msb_eq_decide, reset, last, Nat.add_sub_cancel]
      exact decide_eq_true le_rfl
    · rw [State.sWeno, shown]
      exact (Bool.and_false _).trans (Bool.and_false _).symm
    · intro _ valid
      rw [shown] at valid
      exact absurd valid Bool.false_ne_true
    · intro i
      rw [items i]
      apply Slot.free
      rw [places, wen1, stb, empty i]
      change (false, s.rWen1 && _, s.rWen2 && _, false, false) = _
      rw [wiping.wen1, wiping.wen2]
      rfl
    · intro i item booked
      rw [items i] at booked
      exact absurd booked.symm (Option.some_ne_none item)

/-! ### Whole runs -/

/-- The book after the reset. -/
def Book.start (ticks : List (Tick n lm cc e)) : Book n e where
  cycle := (ticks.head?.map fun tick => tick.1.time.toNat / 2 ^ lm + 3).getD 0
  items _ := none

theorem start_wiping {s : State n lm cc e} (reset : AfterReset s) (ticks : List (Tick n lm cc e)) :
    Wiping s (Book.start ticks) := by
  have zero : s.rReset.toNat = 0 := by
    rw [reset.rReset]
    rfl
  refine ⟨zero ▸ Nat.two_pow_pos n, ?_, reset.rBypass, reset.rAi, reset.rWen1, reset.rWen2, reset.rWen3, reset.rStb,
    ?_, ?_,
    fun _ => rfl⟩
  · intro i below
    omega
  · intro after
    omega
  · intro after
    omega

/-- What the strobe of a slot gives back, and what stays. -/
theorem strobe_spec {s : State n lm cc e} {b : Book n e} {input : In n e} (kept : Wiping s b ∨ Running s b)
    (paced : Paced lm b.cycle input) :
    (s.rStb = true → ∃ item, b.items s.scanIdx = some item ∧ Delivered s input.time.toNat item) ∧
      ∀ i item, b.items i = some item →
        input.time.toNat < item.time + 5 * 2 ^ lm + 2 ^ (n + lm + 1 + cc) := by
  rcases kept with wiping | running
  · refine ⟨fun strobe => ?_, fun i item booked => ?_⟩
    · rw [wiping.stb] at strobe
      exact absurd strobe Bool.false_ne_true
    · rw [wiping.items i] at booked
      exact absurd booked.symm (Option.some_ne_none item)
  · have time := paced.time
    constructor
    · intro strobe
      have slot := running.slots s.scanIdx
      have here : ¬(s.rStb && decide (s.scanIdx = s.scanIdx)) = false := by
        rw [strobe, decide_eq_true rfl]
        exact Bool.false_ne_true ∘ Eq.symm
      cases held : b.items s.scanIdx with
      | none =>
          rw [held] at slot
          exact absurd (slot_none slot) here
      | some item =>
          rw [held] at slot
          have due := slot_due slot
          refine ⟨item, rfl, ?_⟩
          split at due
          next visit =>
            obtain ⟨-, late, early, ext, low⟩ := due
            exact delivered_of_due (running.whole _ item held) time visit late early ext low
          next => exact absurd due.1 here
    · intro i item booked
      have slot := running.slots i
      rw [booked] at slot
      have due := slot_due slot
      have within : 2 ^ lm * (item.entry lm cc i).visit < _ := visit_lt cc (item.turn lm) i item.deadline item.ext
      have turn := turn_ticks (running.whole i item booked)
      have soon : 2 ^ lm * b.cycle ≤ 2 ^ lm * (item.entry lm cc i).visit + 2 ^ lm * 2 := by
        rw [← Nat.mul_add]
        apply Nat.mul_le_mul_left
        split at due
        next visit => exact visit.le
        next => exact due.2.le
      omega

/-- The deadlines that are written to a slot, and those that are given back. -/
def taken (i : BitVec n) (b : State n lm cc e × Book n e) (tick : Tick n lm cc e) : List (Item e) :=
  if accepts b.1 tick.1 i then [⟨tick.1.deadline, tick.1.ext, tick.1.time.toNat⟩] else []

def given (i : BitVec n) (b : State n lm cc e × Book n e) (_ : Tick n lm cc e) : List (Item e) :=
  if b.1.rStb && decide (b.1.scanIdx = i) then (b.2.items i).toList else []

theorem balanced (i : BitVec n) (b : State n lm cc e × Book n e) (tick : Tick n lm cc e) (fair : Fair b tick) :
    (b.2.items i).toList ++ taken i b tick = given i b tick ++ ((stepBoth b tick).2.items i).toList := by
  have fair := fair i
  change _ = given i b tick ++ Option.toList (if accepts b.1 tick.1 i then _ else settled b.1 b.2.items i)
  rw [taken, given]
  rw [settled_eq] at fair ⊢
  cases now : accepts b.1 tick.1 i with
  | false =>
      cases b.1.rStb && decide (b.1.scanIdx = i) with
      | false => simp
      | true => simp
  | true =>
      have free := fair now
      cases out : b.1.rStb && decide (b.1.scanIdx = i) with
      | false =>
          rw [out, if_neg Bool.false_ne_true] at free
          simp [free]
      | true => simp

/-- Every strobe gives a deadline back that was written to its slot, with its flags and in its window, none waits longer
than the largest delay, and those written to a slot are those given back and the one that waits. -/
theorem deadlines_strobed_once (sizes : Sizes n lm cc) {s : State n lm cc e} (reset : AfterReset s)
    {ticks : List (Tick n lm cc e)} (steady : Steady ticks) (fair : Along stepBoth Fair (s, Book.start ticks) ticks) :
    Along stepBoth (fun b tick =>
      (b.1.rStb = true → ∃ item, b.2.items b.1.scanIdx = some item ∧ Delivered b.1 tick.1.time.toNat item) ∧
        ∀ i item, b.2.items i = some item →
          tick.1.time.toNat < item.time + 5 * 2 ^ lm + 2 ^ (n + lm + 1 + cc)) (s, Book.start ticks) ticks ∧
      ∀ i, collect stepBoth (taken i) (s, Book.start ticks) ticks =
        collect stepBoth (given i) (s, Book.start ticks) ticks ++
          ((run stepBoth (s, Book.start ticks) ticks).2.items i).toList := by
  have paced : Along stepBoth (fun b tick => Paced lm b.2.cycle tick.1) (s, Book.start ticks) ticks := by
    apply paced_of_steady s _ steady
    rintro tick rest rfl
    rfl
  constructor
  · have start : Wiping s (Book.start ticks) ∨ Running s (Book.start ticks) := .inl (start_wiping reset ticks)
    have both := paced.and fair
    clear steady reset paced fair
    generalize Book.start ticks = b at start both
    induction ticks generalizing s b with
    | nil => trivial
    | cons tick rest ih =>
        obtain ⟨⟨pace, fair⟩, later⟩ := both
        refine ⟨strobe_spec start pace, ih _ ?_ later⟩
        rcases start with wiping | running
        · exact wiping_step sizes wiping pace
        · exact .inr (running_step sizes running pace fair)
  · intro i
    exact fair.conserves (fun _ => True) (fun b => (b.2.items i).toList) (taken i) (given i) (fun _ _ _ _ => trivial)
      (fun b tick _ fair => balanced i b tick fair) trivial

instance (b : State n lm cc e × Book n e) (tick : Tick n lm cc e) : Decidable (Fair b tick) :=
  inferInstanceAs (Decidable (∀ i, accepts b.1 tick.1 i = true → settled b.1 b.2.items i = none))

/-- Registers after the reset, with zeros where there is none. -/
def blank (n lm cc e : Nat) : State n lm cc e where
  rReset := 0
  rTime3 := 0
  rTime2 := 0
  rTime1 := 0
  rWen1 := false
  rWen2 := false
  rWen3 := false
  rDeadline1 := 0
  rOutput2 := 0
  rCount3 := 0
  rIdx1 := 0
  rIdx2 := 0
  rIdx3 := 0
  rExt1 := 0
  rExt2 := 0
  rExt3 := 0
  rLow2 := 0
  rLow3 := 0
  table _ := Cell.zero
  sBoRaw := Cell.zero
  rBypass := true
  rAi := Cell.zero
  rIdxo := 0
  rStb := false
  scanLate := false
  scanEarly := false
  scanLow := 0
  scanIdx := 0
  scanExt := 0

theorem blank_afterReset : AfterReset (blank n lm cc e) := ⟨rfl, rfl, rfl, rfl, rfl, rfl, rfl, rfl, rfl, rfl, rfl⟩

/-- Time goes on from `start`, and in one cycle a deadline is written to slot 1. -/
def offered (lm start write deadline length : Nat) : List (Tick 1 lm 2 1) :=
  (List.range length).map fun j =>
    (⟨BitVec.ofNat 64 (start + j * 2 ^ lm), j == write, BitVec.ofNat 64 deadline, 1, 1⟩, Cell.zero)

/-- `time_i`, `scan_late_o` and `scan_early_o` at the strobes. -/
def strobes (s : State n lm cc e) (tick : Tick n lm cc e) : List (Nat × Bool × Bool) :=
  if s.rStb then [(tick.1.time.toNat, s.scanLate, s.scanEarly)] else []

theorem deadlines_strobed_once_eleven :
    collect stepBoth (given 1) (blank 1 0 2 1, Book.start (offered 0 0 2 11 12)) (offered 0 0 2 11 12) =
      [⟨11, 1, 2⟩] := by
  have steady : Steady (offered 0 0 2 11 12) := ⟨by decide, by decide, by decide⟩
  have once := (deadlines_strobed_once ⟨by decide, by decide, by decide⟩ blank_afterReset steady (by decide)).2 1
  have written : collect stepBoth (taken 1) (blank 1 0 2 1, Book.start (offered 0 0 2 11 12)) (offered 0 0 2 11 12) =
      [⟨11, 1, 2⟩] := by decide
  have free : (run stepBoth (blank 1 0 2 1, Book.start (offered 0 0 2 11 12)) (offered 0 0 2 11 12)).2.items 1 =
    none := by
    decide
  rw [written, free, Option.toList_none, List.append_nil] at once
  exact once.symm

/-- A deadline one scan period ahead goes out late; with `time_i` between two cycles, one goes out a round too soon. -/
theorem one_period_not_enough :
    collect (fun s tick => s.step tick.2 tick.1) strobes (blank 1 0 2 1) (offered 0 0 2 (2 + 2 ^ 2) 12) =
      [(9, true, false)] ∧
      collect (fun s tick => s.step tick.2 tick.1) strobes (blank 1 1 2 1) (offered 1 1 4 (9 + 26) 12) =
        [(19, false, false)] := by
  decide

end WrCores.Eca.Scan
