import WrCores.Eca.ScanEntries

/-!
eca_scan.vhd over whole runs. Each slot is followed on its own: a deadline goes through the three stages in front of the
table, waits in the table, goes out and leaves the slot free.
-/

namespace WrCores.Eca.Scan

open Clocked

variable {n lm cc e : Nat}

/-! ### The scanner -/

/-- The scanner in cycle `k`: what it has read in the second cycle of a look is what the table holds. -/
structure Looks (s : State n lm cc e) (k : Nat) : Prop where
  ready : s.sReady = true
  time3 : s.rTime3.toNat = 2 ^ lm * (k + 1)
  time2 : s.rTime2.toNat = 2 ^ lm * k
  weno : s.sWeno = (decide (k % 2 = 1) && s.sBo.valid)
  seen : k % 2 = 1 → s.sBo.valid = true → s.rIdxo.toNat = k / 2 % 2 ^ n ∧ s.sBo = s.table s.rIdxo
  blind : k % 2 = 1 → s.sBo.valid = false → ∀ i : BitVec n, i.toNat = k / 2 % 2 ^ n → (s.table i).valid = false

/-- The input of a cycle: `time_i` is three cycles behind `r_time2`, and its sums do not overflow. -/
structure Paced (lm k : Nat) (i : In n e) : Prop where
  time : i.time.toNat + 3 * 2 ^ lm = 2 ^ lm * k
  far : 2 ^ lm * (k + 3) + 2 ^ (n + lm + 1) ≤ 2 ^ 64

theorem phase_bit {x : BitVec 64} {k : Nat} (value : x.toNat = 2 ^ lm * k) :
    x.getLsbD lm = decide (k % 2 = 1) := by
  rw [← BitVec.testBit_toNat, value, Nat.testBit_eq_decide_div_mod_eq, Nat.mul_div_cancel_left _ (Nat.two_pow_pos lm)]

theorem phase_slot {x : BitVec 64} {k : Nat} (value : x.toNat = 2 ^ lm * k) :
    (x.extractLsb' (lm + 1) n).toNat = k / 2 % 2 ^ n := by
  rw [BitVec.extractLsb'_toNat, value, Nat.shiftRight_eq_div_pow, Nat.pow_succ, Nat.mul_div_mul_left _ _
    (Nat.two_pow_pos lm)]

theorem sIdxo_even {s : State n lm cc e} {k : Nat} (looks : Looks s k) (even : k % 2 = 0) :
    s.sIdxo.toNat = k / 2 % 2 ^ n := by
  have bit : s.rTime2.getLsbD lm = false := by
    rw [phase_bit looks.time2]
    exact decide_eq_false (by omega)
  rw [State.sIdxo, bit, if_neg Bool.false_ne_true, phase_slot looks.time2]

theorem sIdxo_odd {s : State n lm cc e} {k : Nat} (looks : Looks s k) (odd : k % 2 = 1) : s.sIdxo = s.rIdxo := by
  have bit : s.rTime2.getLsbD lm = true := by
    rw [phase_bit looks.time2]
    exact decide_eq_true odd
  rw [State.sIdxo, bit, if_pos rfl]

theorem sBWen_eq {s : State n lm cc e} {k : Nat} (looks : Looks s k) : s.sBWen = s.sWeno ∧ s.sBAddr = s.sIdxo := by
  rw [State.sBWen, State.sBAddr, looks.ready]
  exact ⟨Bool.false_or _, rfl⟩

/-- In the first cycle of a look nothing is written back. -/
theorem sWeno_even {s : State n lm cc e} {k : Nat} (looks : Looks s k) (even : k % 2 = 0) : s.sWeno = false := by
  rw [looks.weno, decide_eq_false (by omega), Bool.false_and]

theorem ready_step {s : State n lm cc e} (undef : Cell n lm cc e) (i : In n e) (ready : s.sReady = true) :
    (s.step undef i).sReady = true := by
  have same : (s.step undef i).rReset = s.rReset := by
    simp only [State.step, ready]
    simp
  rw [State.sReady, same]
  exact ready

/-- What is read in the first cycle is what the table holds in the second. -/
theorem sBo_step (undef : Cell n lm cc e) (size : 0 < n) {s : State n lm cc e} {k : Nat} (looks : Looks s k)
    (even : k % 2 = 0) (i : In n e) : (s.step undef i).sBo = (s.step undef i).table s.sIdxo := by
  obtain ⟨wen, addr⟩ := sBWen_eq looks
  rw [sWeno_even looks even] at wen
  have table : (s.step undef i).table = if s.rWen3 then Function.update s.table s.rIdx3 s.sAi else s.table := by
    simp only [State.step, State.nextTable, wen]
    rfl
  have bypass : (s.step undef i).rBypass = (s.rWen3 && decide (s.rIdx3 = s.sIdxo)) := by
    simp only [State.step, looks.ready, if_true, fEcaEq_eq, size, decide_true, Bool.true_and]
  have ai : (s.step undef i).rAi = s.sAi := by
    simp only [State.step, looks.ready, if_true]
  have raw : (s.step undef i).sBoRaw =
      if s.rWen3 && decide (s.rIdx3 = s.sIdxo) then undef else s.table s.sIdxo := by
    simp only [State.step, wen, addr, Bool.false_or]
  rw [State.sBo, bypass, ai, raw, table]
  cases stage : s.rWen3 with
  | false => simp
  | true =>
      by_cases same : s.rIdx3 = s.sIdxo
      · simp [same]
      · simp [same, Function.update_of_ne (Ne.symm same)]

theorem time3_step (undef : Cell n lm cc e) (s : State n lm cc e) {k : Nat} {i : In n e} (paced : Paced lm k i) :
    (s.step undef i).rTime3.toNat = 2 ^ lm * (k + 1 + 1) := by
  have unit := Nat.two_pow_pos lm
  have sum : 2 ^ lm * (k + 1 + 1) = i.time.toNat + 5 * 2 ^ lm := by
    have time := paced.time
    rw [Nat.mul_add, Nat.mul_add]
    omega
  have far : i.time.toNat + 5 * 2 ^ lm < 2 ^ 64 := by
    have far := paced.far
    have time := paced.time
    have whole := Nat.two_pow_pos (n + lm + 1)
    rw [Nat.mul_add] at far
    omega
  have five : (BitVec.ofNat 64 (5 * 2 ^ lm)).toNat = 5 * 2 ^ lm := by
    rw [BitVec.toNat_ofNat, Nat.mod_eq_of_lt (by omega)]
  change (i.time + BitVec.ofNat 64 (5 * 2 ^ lm)).toNat = _
  rw [BitVec.toNat_add, five, sum, Nat.mod_eq_of_lt far]

theorem looks_step (undef : Cell n lm cc e) (size : 0 < n) {s : State n lm cc e} {k : Nat} (looks : Looks s k)
    {i : In n e}
    (paced : Paced lm k i) : Looks (s.step undef i) (k + 1) := by
  have time2 : (s.step undef i).rTime2.toNat = 2 ^ lm * (k + 1) := looks.time3
  have odd : k % 2 = 0 ↔ (k + 1) % 2 = 1 := by omega
  constructor
  · exact ready_step undef i looks.ready
  · exact time3_step undef s paced
  · exact time2
  · have bit1 : (s.step undef i).rTime1.getLsbD lm = decide (k % 2 = 1) := phase_bit looks.time2
    rw [State.sWeno, bit1, phase_bit time2]
    by_cases even : k % 2 = 0
    · simp [odd.mp even, even]
    · have now : k % 2 = 1 := by omega
      have next : ¬(k + 1) % 2 = 1 := by omega
      simp [now, next]
  · intro second _
    have even := odd.mpr second
    refine ⟨?_, sBo_step undef size looks even i⟩
    have half : (k + 1) / 2 = k / 2 := by omega
    rw [half]
    exact sIdxo_even looks even
  · intro second invalid j slot
    have even := odd.mpr second
    have half : (k + 1) / 2 = k / 2 := by omega
    have here : j = s.sIdxo := by
      apply BitVec.eq_of_toNat_eq
      rw [slot, half, sIdxo_even looks even]
    rw [here, ← sBo_step undef size looks even i]
    exact invalid

/-! ### A slot and its deadline -/

/-- The slot is the one that is looked at and written back. -/
def looked (s : State n lm cc e) (i : BitVec n) : Bool := s.sWeno && decide (s.rIdxo = i)

/-- Where a slot is: in one of the three stages, in the table, at the output. -/
def places (s : State n lm cc e) (i : BitVec n) : Bool × Bool × Bool × Bool × Bool :=
  (s.rWen1 && decide (s.rIdx1 = i), s.rWen2 && decide (s.rIdx2 = i), s.rWen3 && decide (s.rIdx3 = i),
    (s.table i).valid, s.rStb && decide (s.scanIdx = i))

theorem looked_spec {s : State n lm cc e} {k : Nat} {i : BitVec n} (looks : Looks s k) (now : looked s i = true) :
    k % 2 = 1 ∧ (k - 1) % round n = 2 * i.toNat ∧ s.rIdxo = i ∧ s.sBo = s.table i ∧ (s.table i).valid = true := by
  rw [looked, looks.weno, Bool.and_eq_true, Bool.and_eq_true, decide_eq_true_iff, decide_eq_true_iff] at now
  obtain ⟨⟨odd, valid⟩, rfl⟩ := now
  obtain ⟨slot, same⟩ := looks.seen odd valid
  have even : (k - 1) % 2 = 0 := by omega
  have half : (k - 1) / 2 = k / 2 := by omega
  exact ⟨odd, (slot_residue even).mpr (half ▸ slot.symm), rfl, same, same ▸ valid⟩

/-- A deadline in the table is not overlooked. -/
theorem looked_of_turn {s : State n lm cc e} {k : Nat} {i : BitVec n} (looks : Looks s k) (odd : k % 2 = 1)
    (here : (k - 1) % round n = 2 * i.toNat) (valid : (s.table i).valid = true) : looked s i = true := by
  have even : (k - 1) % 2 = 0 := by omega
  have half : (k - 1) / 2 = k / 2 := by omega
  have slot : i.toNat = k / 2 % 2 ^ n := by
    rw [← half]
    exact ((slot_residue even).mp here).symm
  cases shown : s.sBo.valid with
  | false =>
      rw [looks.blind odd shown i slot] at valid
      exact absurd valid Bool.false_ne_true
  | true =>
      have same : s.rIdxo = i := BitVec.eq_of_toNat_eq ((looks.seen odd shown).1.trans slot.symm)
      rw [looked, looks.weno, shown, decide_eq_true odd, decide_eq_true same]
      rfl

theorem table_step (undef : Cell n lm cc e) {s : State n lm cc e} {k : Nat} (looks : Looks s k) (input : In n e)
    (i : BitVec n) :
    (s.step undef input).table i =
      if looked s i then s.sBi else if s.rWen3 && decide (s.rIdx3 = i) then s.sAi else s.table i := by
  obtain ⟨wen, addr⟩ := sBWen_eq looks
  change s.nextTable i = _
  rw [State.nextTable, wen, addr, looked]
  have stage : (if s.rWen3 then Function.update s.table s.rIdx3 s.sAi else s.table) i =
      if s.rWen3 && decide (s.rIdx3 = i) then s.sAi else s.table i := by
    cases s.rWen3 with
    | false => rfl
    | true =>
        by_cases same : s.rIdx3 = i
        · simp [same]
        · simp [same, Function.update_of_ne (Ne.symm same)]
  cases back : s.sWeno with
  | false =>
      simp only [Bool.false_and, Bool.false_eq_true, if_false]
      exact stage
  | true =>
      rw [looks.weno, Bool.and_eq_true, decide_eq_true_iff] at back
      rw [sIdxo_odd looks back.1, if_pos rfl, Bool.true_and]
      by_cases same : s.rIdxo = i
      · simp [same]
      · rw [Function.update_of_ne (Ne.symm same), stage, decide_eq_false same]
        rfl

theorem out_step (undef : Cell n lm cc e) (s : State n lm cc e) (input : In n e) (i : BitVec n) :
    ((s.step undef input).rStb && decide ((s.step undef input).scanIdx = i)) = (looked s i && !s.sNotZero) := by
  change ((!s.sNotZero && s.sWeno) && decide ((if s.sWeno then s.rIdxo else s.scanIdx) = i)) = _
  rw [looked]
  cases s.sWeno with
  | false => simp
  | true => simp [Bool.and_comm]

/-- A deadline and the time at which it came. -/
structure Item (e : Nat) where
  deadline : BitVec 64
  ext : BitVec e
  time : Nat
  deriving DecidableEq, Repr

/-- The cycle in which it is written into the table. -/
def Item.turn (lm : Nat) (item : Item e) : Nat := item.time / 2 ^ lm + 6

def Item.entry (lm cc : Nat) (item : Item e) (i : BitVec n) : Entry n lm e :=
  Scan.entry cc (item.turn lm) i item.deadline item.ext

/-- A slot in cycle `k`: free, or with a deadline in exactly one place. -/
inductive Slot (s : State n lm cc e) (k : Nat) (i : BitVec n) : Option (Item e) → Prop
  | free (place : places s i = (false, false, false, false, false)) : Slot s k i none
  | first (item : Item e) (place : places s i = (true, false, false, false, false)) (turn : item.turn lm = k + 2)
      (deadline : s.rDeadline1 = item.deadline.setWidth 65) (ext : s.rExt1 = item.ext) : Slot s k i (some item)
  | second (item : Item e) (place : places s i = (false, true, false, false, false)) (turn : item.turn lm = k + 1)
      (output : s.rOutput2 = outputOf lm i item.deadline) (low : s.rLow2 = item.deadline.setWidth (n + lm + 1))
      (ext : s.rExt2 = item.ext) : Slot s k i (some item)
  | third (item : Item e) (place : places s i = (false, false, true, false, false)) (turn : item.turn lm = k)
      (count : s.rCount3 = countOf lm k i item.deadline) (low : s.rLow3 = item.deadline.setWidth (n + lm + 1))
      (ext : s.rExt3 = item.ext) : Slot s k i (some item)
  | waits (item : Item e) (place : places s i = (false, false, false, true, false))
      (late : (s.table i).late = (item.entry lm cc i).late) (early : (s.table i).early = (item.entry lm cc i).early)
      (ext : (s.table i).ext = item.ext) (low : (s.table i).low = item.deadline.setWidth (n + lm + 1))
      (visit : nextVisit n i.toNat k + (s.table i).count.toNat * round n = (item.entry lm cc i).visit) :
      Slot s k i (some item)
  | out (item : Item e) (place : places s i = (false, false, false, false, true))
      (late : s.scanLate = (item.entry lm cc i).late) (early : s.scanEarly = (item.entry lm cc i).early)
      (ext : s.scanExt = item.ext) (low : s.scanLow = item.deadline.setWidth (n + lm + 1))
      (visit : k = (item.entry lm cc i).visit + 2) : Slot s k i (some item)

theorem not_looked {s : State n lm cc e} {k : Nat} {i : BitVec n} (looks : Looks s k)
    (absent : (s.table i).valid = false) : looked s i = false := by
  cases now : looked s i with
  | false => rfl
  | true =>
      rw [(looked_spec looks now).2.2.2.2] at absent
      exact absurd absent.symm Bool.false_ne_true

/-- The slot is written to. -/
def accepts (s : State n lm cc e) (input : In n e) (i : BitVec n) : Bool :=
  input.wen && s.sReady && decide (input.idx = i)

theorem places_step (undef : Cell n lm cc e) (s : State n lm cc e) (input : In n e) (i : BitVec n) :
    places (s.step undef input) i =
      (accepts s input i, s.rWen1 && decide (s.rIdx1 = i), s.rWen2 && decide (s.rIdx2 = i),
      ((s.step undef input).table i).valid, looked s i && !s.sNotZero) := by
  rw [← out_step undef s input i]
  rfl

/-- A slot whose deadline goes on is not written to. -/
theorem places_away {s : State n lm cc e} {k : Nat} {i : BitVec n} (looks : Looks s k) (undef : Cell n lm cc e)
    (input : In n e)
    (absent : (s.table i).valid = false) :
    places (s.step undef input) i =
      (accepts s input i, s.rWen1 && decide (s.rIdx1 = i), s.rWen2 && decide (s.rIdx2 = i),
      s.rWen3 && decide (s.rIdx3 = i), false) := by
  have unseen := not_looked looks absent
  rw [places_step, table_step undef looks, unseen, if_neg Bool.false_ne_true, Bool.false_and]
  cases s.rWen3 && decide (s.rIdx3 = i) with
  | false => rw [if_neg Bool.false_ne_true, absent]
  | true => rfl

theorem turn_paced {k : Nat} {input : In n e} (paced : Paced lm k input) :
    input.time.toNat / 2 ^ lm + 6 = k + 3 := by
  have unit := Nat.two_pow_pos lm
  have ticks : input.time.toNat = 2 ^ lm * (k - 3) := by
    have time := paced.time
    rw [Nat.mul_sub]
    omega
  have late : 3 ≤ k := by
    by_contra early
    have time := paced.time
    have bound : 2 ^ lm * k < 2 ^ lm * 3 := Nat.mul_lt_mul_of_pos_left (by omega) unit
    omega
  rw [ticks, Nat.mul_div_cancel_left _ unit]
  omega

section Slots

variable {s : State n lm cc e} {k : Nat} {i : BitVec n} {input : In n e} {item : Item e} (undef : Cell n lm cc e)

/-- A free slot, and one that is free from now on. -/
theorem slot_vacant (looks : Looks s k) (paced : Paced lm k input) {out : Bool}
    (place : places s i = (false, false, false, false, out)) :
    Slot (s.step undef input) (k + 1) i
      (if accepts s input i then some ⟨input.deadline, input.ext, input.time.toNat⟩ else none) := by
  simp only [places, Prod.mk.injEq] at place
  obtain ⟨first, second, third, absent, -⟩ := place
  have next := places_away looks undef input absent
  rw [first, second, third] at next
  cases now : accepts s input i with
  | false =>
      rw [now] at next
      exact .free next
  | true =>
      rw [now] at next
      exact .first _ next (turn_paced paced) rfl rfl

theorem slot_first (looks : Looks s k) (idle : accepts s input i = false)
    (place : places s i = (true, false, false, false, false)) (turn : item.turn lm = k + 2)
    (deadline : s.rDeadline1 = item.deadline.setWidth 65) (ext : s.rExt1 = item.ext) (sizes : Sizes n lm cc) :
    Slot (s.step undef input) (k + 1) i (some item) := by
  simp only [places, Prod.mk.injEq] at place
  obtain ⟨first, second, third, absent, -⟩ := place
  have next := places_away looks undef input absent
  rw [idle, first, second, third] at next
  have same : s.rIdx1 = i := by
    rw [Bool.and_eq_true, decide_eq_true_iff] at first
    exact first.2
  refine .second item next turn ?_ ?_ ext
  · change s.nextOutput = _
    rw [State.nextOutput, deadline, same]
    rfl
  · change s.rDeadline1.setWidth (n + lm + 1) = _
    have delay := sizes.delay
    rw [deadline, BitVec.setWidth_setWidth_of_le _ (by omega)]

theorem slot_second (looks : Looks s k) (idle : accepts s input i = false)
    (place : places s i = (false, true, false, false, false)) (turn : item.turn lm = k + 1)
    (output : s.rOutput2 = outputOf lm i item.deadline) (low : s.rLow2 = item.deadline.setWidth (n + lm + 1))
    (ext : s.rExt2 = item.ext) :
    Slot (s.step undef input) (k + 1) i (some item) := by
  simp only [places, Prod.mk.injEq] at place
  obtain ⟨first, second, third, absent, -⟩ := place
  have next := places_away looks undef input absent
  rw [idle, first, second, third] at next
  refine .third item next turn ?_ low ext
  change s.rOutput2 - s.rTime3.setWidth 65 = _
  have time : s.rTime3.setWidth 65 = BitVec.ofNat 65 (2 ^ lm * (k + 1)) := by
    apply BitVec.eq_of_toNat_eq
    rw [BitVec.toNat_setWidth, BitVec.toNat_ofNat, looks.time3]
  rw [output, time, countOf]

theorem slot_third (looks : Looks s k) (paced : Paced lm k input) (idle : accepts s input i = false)
    (place : places s i = (false, false, true, false, false)) (turn : item.turn lm = k)
    (count : s.rCount3 = countOf lm k i item.deadline) (low : s.rLow3 = item.deadline.setWidth (n + lm + 1))
    (ext : s.rExt3 = item.ext) (sizes : Sizes n lm cc) :
    Slot (s.step undef input) (k + 1) i (some item) := by
  simp only [places, Prod.mk.injEq] at place
  obtain ⟨first, second, third, absent, -⟩ := place
  have next := places_away looks undef input absent
  rw [idle, first, second, third] at next
  have far : 2 ^ lm * k + 2 ^ (n + lm + 1) ≤ 2 ^ 64 := by
    have far := paced.far
    rw [Nat.mul_add] at far
    omega
  obtain ⟨late, early, passed⟩ := record_entry sizes far count
  have cell : (s.step undef input).table i = s.sAi := by
    rw [table_step undef looks, not_looked looks absent, third]
    rfl
  have visit : nextVisit n i.toNat (k + 1) = firstVisit n i.toNat k := by
    rcases Nat.mod_two_eq_zero_or_one k with even | odd
    · rw [nextVisit_second even, nextVisit_even even]
    · rw [nextVisit_even (by omega), firstVisit_odd i.isLt odd]
  refine .waits item next ?_ ?_ ?_ ?_ ?_
  · rw [cell, Item.entry, turn]
    exact late
  · rw [cell, Item.entry, turn]
    exact early
  · rw [cell]
    exact ext
  · rw [cell]
    exact low
  · rw [cell, visit, Item.entry, turn]
    change firstVisit n i.toNat k + s.sCount3.toNat * round n = _
    rw [passed]
    rfl

/-- Another slot is looked at, or none. -/
theorem slot_passed (looks : Looks s k) (idle : accepts s input i = false)
    (place : places s i = (false, false, false, true, false)) (unseen : looked s i = false)
    (late : (s.table i).late = (item.entry lm cc i).late) (early : (s.table i).early = (item.entry lm cc i).early)
    (ext : (s.table i).ext = item.ext) (low : (s.table i).low = item.deadline.setWidth (n + lm + 1))
    (visit : nextVisit n i.toNat k + (s.table i).count.toNat * round n = (item.entry lm cc i).visit) :
    Slot (s.step undef input) (k + 1) i (some item) := by
  simp only [places, Prod.mk.injEq] at place
  obtain ⟨first, second, third, valid, -⟩ := place
  have cell : (s.step undef input).table i = s.table i := by
    rw [table_step undef looks, unseen, third]
    rfl
  have next := places_step undef s input i
  rw [idle, first, second, cell, valid, unseen, Bool.false_and] at next
  have same : nextVisit n i.toNat (k + 1) = nextVisit n i.toNat k := by
    rcases Nat.mod_two_eq_zero_or_one k with even | odd
    · exact nextVisit_second even
    · refine nextVisit_other i.isLt odd fun here => ?_
      rw [looked_of_turn looks odd here valid] at unseen
      exact absurd unseen.symm Bool.false_ne_true
  exact .waits item next (cell ▸ late) (cell ▸ early) (cell ▸ ext) (cell ▸ low) (by rw [cell, same]; exact visit)

/-- The slot itself is looked at: it counts down, and goes out at zero. -/
theorem slot_looked (looks : Looks s k) (idle : accepts s input i = false)
    (place : places s i = (false, false, false, true, false)) (now : looked s i = true)
    (late : (s.table i).late = (item.entry lm cc i).late) (early : (s.table i).early = (item.entry lm cc i).early)
    (ext : (s.table i).ext = item.ext) (low : (s.table i).low = item.deadline.setWidth (n + lm + 1))
    (visit : nextVisit n i.toNat k + (s.table i).count.toNat * round n = (item.entry lm cc i).visit)
    (sizes : Sizes n lm cc) : Slot (s.step undef input) (k + 1) i (some item) := by
  simp only [places, Prod.mk.injEq] at place
  obtain ⟨first, second, third, valid, -⟩ := place
  obtain ⟨odd, here, same, shown, -⟩ := looked_spec looks now
  obtain ⟨this, later⟩ := nextVisit_same i.isLt odd here
  have cell : (s.step undef input).table i = s.sBi := by
    rw [table_step undef looks, now, if_pos rfl]
  have next := places_step undef s input i
  rw [idle, first, second, cell, now, Bool.true_and] at next
  have nonzero : s.sNotZero = decide ((s.table i).count ≠ 0) := by
    rw [State.sNotZero, shown, fEcaOr_eq sizes.count]
  have weno : s.sWeno = true := by
    rw [looked, Bool.and_eq_true] at now
    exact now.1
  by_cases zero : (s.table i).count = 0
  · have clear : s.sNotZero = false := by
      rw [nonzero]
      exact decide_eq_false (not_not_intro zero)
    have place : places (s.step undef input) i = (false, false, false, false, true) := by
      rw [next, State.sBi, clear]
      rfl
    rw [zero, this] at visit
    refine .out item place ?_ ?_ ?_ ?_ ?_
    · simp only [State.step, weno, if_true, shown]
      exact late
    · simp only [State.step, weno, if_true, shown]
      exact early
    · simp only [State.step, weno, if_true, shown]
      exact ext
    · simp only [State.step, weno, if_true, shown]
      exact low
    · simp only [BitVec.ofNat_eq_ofNat, BitVec.toNat_ofNat, Nat.zero_mod, Nat.zero_mul, Nat.add_zero] at visit
      omega
  · have set : s.sNotZero = true := by
      rw [nonzero]
      exact decide_eq_true zero
    have place : places (s.step undef input) i = (false, false, false, true, false) := by
      rw [next, State.sBi, set]
      rfl
    have positive : 0 < (s.table i).count.toNat := Nat.pos_of_ne_zero fun none => zero
      (BitVec.eq_of_toNat_eq (by simp [none]))
    have less : ((s.table i).count - 1).toNat = (s.table i).count.toNat - 1 := by
      have one : (1 : BitVec cc).toNat = 1 := BitVec.toNat_one sizes.count
      have bound := (s.table i).count.isLt
      rw [BitVec.toNat_sub, one, show 2 ^ cc - 1 + (s.table i).count.toNat =
        (s.table i).count.toNat - 1 + 2 ^ cc by omega,
        Nat.add_mod_right, Nat.mod_eq_of_lt (by omega)]
    refine .waits item place ?_ ?_ ?_ ?_ ?_
    · rw [cell, State.sBi, shown]
      exact late
    · rw [cell, State.sBi, shown]
      exact early
    · rw [cell, State.sBi, shown]
      exact ext
    · rw [cell, State.sBi, shown]
      exact low
    · rw [cell, State.sBi, shown, later, less, Nat.sub_mul, Nat.one_mul]
      have enough : round n ≤ (s.table i).count.toNat * round n := Nat.le_mul_of_pos_left _ positive
      rw [this] at visit
      omega

/-- What a slot holds once the strobe has been seen. -/
def settled (s : State n lm cc e) (items : BitVec n → Option (Item e)) : BitVec n → Option (Item e) :=
  if s.rStb then Function.update items s.scanIdx none else items

theorem settled_eq (items : BitVec n → Option (Item e)) (i : BitVec n) :
    settled s items i = if s.rStb && decide (s.scanIdx = i) then none else items i := by
  rw [settled]
  cases s.rStb with
  | false => rfl
  | true =>
      by_cases same : s.scanIdx = i
      · simp [same]
      · simp [same, Function.update_of_ne (Ne.symm same)]

/-- A slot over one cycle. -/
theorem slot_step (sizes : Sizes n lm cc) (looks : Looks s k) (paced : Paced lm k input)
    {items : BitVec n → Option (Item e)} (slot : Slot s k i (items i))
    (fair : accepts s input i = true → settled s items i = none) :
    Slot (s.step undef input) (k + 1) i
      (if accepts s input i then some ⟨input.deadline, input.ext, input.time.toNat⟩ else settled s items i) := by
  rw [settled_eq] at fair ⊢
  generalize items i = held at slot fair
  have quiet : ∀ item : Item e, (s.rStb && decide (s.scanIdx = i)) = false → held = some item →
      accepts s input i = false := by
    intro item still some
    rw [still, some] at fair
    cases now : accepts s input i with
    | false => rfl
    | true => exact absurd (fair now) (Option.some_ne_none item)
  have out : (s.rStb && decide (s.scanIdx = i)) = (places s i).2.2.2.2 := rfl
  rw [out] at quiet ⊢
  cases slot with
  | free place =>
      have next := slot_vacant undef looks paced place
      rw [place]
      exact next
  | first item place turn deadline ext =>
      have idle := quiet item (by rw [place]) rfl
      rw [idle, place]
      exact slot_first undef looks idle place turn deadline ext sizes
  | second item place turn output low ext =>
      have idle := quiet item (by rw [place]) rfl
      rw [idle, place]
      exact slot_second undef looks idle place turn output low ext
  | third item place turn count low ext =>
      have idle := quiet item (by rw [place]) rfl
      rw [idle, place]
      exact slot_third undef looks paced idle place turn count low ext sizes
  | waits item place late early ext low visit =>
      have idle := quiet item (by rw [place]) rfl
      rw [idle, place]
      cases now : looked s i with
      | false => exact slot_passed undef looks idle place now late early ext low visit
      | true => exact slot_looked undef looks idle place now late early ext low visit sizes
  | out item place =>
      have next := slot_vacant undef looks paced place
      rw [place]
      exact next

theorem slot_none (slot : Slot s k i none) : (s.rStb && decide (s.scanIdx = i)) = false := by
  change (places s i).2.2.2.2 = false
  cases slot with
  | free place => rw [place]

/-- A deadline is at the output in its cycle, and not before. -/
theorem slot_due (slot : Slot s k i (some item)) :
    if k = (item.entry lm cc i).visit + 2 then
      (s.rStb && decide (s.scanIdx = i)) = true ∧ s.scanLate = (item.entry lm cc i).late ∧
        s.scanEarly = (item.entry lm cc i).early ∧ s.scanExt = item.ext ∧
        s.scanLow = item.deadline.setWidth (n + lm + 1)
    else (s.rStb && decide (s.scanIdx = i)) = false ∧ k < (item.entry lm cc i).visit + 2 := by
  have shown : (s.rStb && decide (s.scanIdx = i)) = (places s i).2.2.2.2 := rfl
  have after : ∀ item : Item e, item.turn lm ≤ (item.entry lm cc i).visit := fun item =>
    (firstVisit_spec i.isLt (item.turn lm)).1.trans (Nat.le_add_right _ _)
  rw [shown]
  cases slot with
  | first item place turn deadline ext =>
      have turns := after item
      rw [place, if_neg (by omega)]
      exact ⟨rfl, by omega⟩
  | second item place turn output low ext =>
      have turns := after item
      rw [place, if_neg (by omega)]
      exact ⟨rfl, by omega⟩
  | third item place turn count low ext =>
      have turns := after item
      rw [place, if_neg (by omega)]
      exact ⟨rfl, by omega⟩
  | waits item place late early ext low visit =>
      have next : k - k % 2 ≤ nextVisit n i.toNat k := (firstVisit_spec i.isLt (k - k % 2)).1
      rw [place, if_neg (by omega)]
      exact ⟨rfl, by omega⟩
  | out item place late early ext low visit =>
      rw [place, if_pos visit]
      exact ⟨rfl, late, early, ext, low⟩

end Slots

end WrCores.Eca.Scan
