import Mathlib.Data.List.Basic
import Mathlib.Data.Nat.Find

/-!
A four-phase hand-over between two clocks. The sender raises a flag; the flag goes through a chain of registers, first
to the receiver, where the edge of its image makes a strobe, and back to the sender, where it clears the flag without
a clock. A register that reads one of the other clock may find it before or after its change. The values in the chain
form a wave that only goes forward, whatever the order of the edges. Nothing here names a particular circuit.
-/

namespace WrCores.Clocked.HandOver

inductive Side
  | sender
  | receiver
  deriving DecidableEq, Repr

/-- What happens at one time: which clocks have an edge, whether there is a request, and whether a register that
reads one of the other clock finds its new value. -/
structure Edge where
  ticks : Side → Bool
  fresh : Side → Bool
  request : Bool

def next (e : Edge) (above side : Side) (old new own : Bool) : Bool :=
  if e.ticks side then (if above ≠ side ∧ e.fresh side then new else old) else own

/-- The chain after an event, behind a register of the side `above` that goes from `old` to `new`. -/
def shift (e : Edge) : Side → Bool → Bool → List Side → List Bool → List Bool
  | above, old, new, side :: sides, own :: rest =>
      next e above side old new own :: shift e side own (next e above side old new own) sides rest
  | _, _, _, _, _ => []

/-- The sides of the registers, and the place of the last one but one of the receiver. -/
structure Plan where
  sides : List Side
  image : Nat
  inside : image + 2 < sides.length
  received : sides[image]? = some .receiver ∧ sides[image + 1]? = some .receiver

structure Shake where
  flag : Bool
  chain : List Bool
  strobe : Bool
  clear : Bool

namespace Shake

variable (plan : Plan) (s : Shake) (e : Edge)

def clearNext : Bool := if e.ticks .sender then s.chain.getLastD false else s.clear

def flagNext : Bool := if s.clear || s.clearNext e then false else s.flag || (e.ticks .sender && e.request)

def step : Shake where
  flag := s.flagNext e
  chain := shift e .sender s.flag (s.flagNext e) plan.sides s.chain
  strobe :=
    if e.ticks .receiver then s.chain.getD plan.image false && !s.chain.getD (plan.image + 1) false else s.strobe
  clear := s.clearNext e

end Shake

/-! ### Waves -/

/-- `level` has come to the first `front` registers. -/
def wave (level : Bool) (front rest : Nat) : List Bool := List.replicate front level ++ List.replicate rest !level

variable {e : Edge}

@[simp] theorem shift_length (above : Side) (old new : Bool) (sides : List Side) (bits : List Bool) :
    (shift e above old new sides bits).length = min sides.length bits.length := by
  induction sides generalizing above old new bits with
  | nil => simp [shift]
  | cons side sides ih =>
      cases bits with
      | nil => simp [shift]
      | cons own rest => simp [shift, ih, Nat.add_min_add_right]

theorem shift_still (level : Bool) (above : Side) (sides : List Side) :
    shift e above level level sides (List.replicate sides.length level) = List.replicate sides.length level := by
  induction sides generalizing above with
  | nil => rfl
  | cons side sides ih =>
      have here : next e above side level level level = level := by simp [next]
      rw [List.length_cons, List.replicate_succ, shift, here, ih]

/-- A register that changes sends a wave into the chain behind it, or not yet. -/
theorem shift_begins (level : Bool) (above : Side) (sides : List Side) : ∃ front rest, front + rest = sides.length ∧
    shift e above (!level) level sides (List.replicate sides.length !level) = wave level front rest := by
  induction sides generalizing above with
  | nil => exact ⟨0, 0, rfl, rfl⟩
  | cons side sides ih =>
      rw [List.length_cons, List.replicate_succ, shift]
      rcases eq_or_ne (next e above side (!level) level !level) level with changed | kept
      · obtain ⟨front, rest, total, waves⟩ := ih side
        refine ⟨front + 1, rest, by omega, ?_⟩
        rw [changed, waves, wave, wave, List.replicate_succ, List.cons_append]
      · refine ⟨0, sides.length + 1, by omega, ?_⟩
        rw [Bool.eq_not.2 kept, shift_still, wave, List.replicate_zero, List.nil_append, List.replicate_succ]

theorem shift_wave (level : Bool) (above : Side) (sides : List Side) (front rest : Nat)
    (total : front + rest = sides.length) : ∃ front' rest', front ≤ front' ∧ front' + rest' = sides.length ∧
      (∀ side, sides[front]? = some side → e.ticks side = true → front < front') ∧
      shift e above level level sides (wave level front rest) = wave level front' rest' := by
  induction front generalizing above sides with
  | zero =>
      cases sides with
      | nil =>
          obtain rfl : rest = 0 := by simpa using total
          exact ⟨0, 0, le_rfl, rfl, fun _ none _ => (by cases none), rfl⟩
      | cons side sides =>
          obtain rfl : rest = sides.length + 1 := by simpa using total
          rw [wave, List.replicate_zero, List.nil_append, List.replicate_succ, shift]
          rcases eq_or_ne (next e above side level level !level) level with changed | kept
          · obtain ⟨front, rest, total, waves⟩ := shift_begins (e := e) level side sides
            refine ⟨front + 1, rest, by omega, by simp [← total, Nat.add_right_comm], fun _ _ _ => by omega, ?_⟩
            rw [changed, waves, wave, wave, List.replicate_succ, List.cons_append]
          · refine ⟨0, sides.length + 1, le_rfl, by simp, fun _ here ticks => ?_, ?_⟩
            · obtain rfl : side = _ := Option.some.inj here
              simp [next, ticks] at kept
            · rw [Bool.eq_not.2 kept, shift_still, wave, List.replicate_zero, List.nil_append, List.replicate_succ]
  | succ front ih =>
      cases sides with
      | nil => simp at total
      | cons side sides =>
          obtain ⟨front', rest', further, total', moves, waves⟩ := ih side sides (by simp at total; omega)
          have here : next e above side level level level = level := by simp [next]
          refine ⟨front' + 1, rest', by omega, by simp [← total', Nat.add_right_comm], fun other at' ticks => ?_, ?_⟩
          · exact Nat.succ_lt_succ (moves other (by simpa using at') ticks)
          · rw [wave, List.replicate_succ, List.cons_append, shift, here, ← wave, waves, wave, wave,
              List.replicate_succ, List.cons_append]

theorem wave_getD (level : Bool) {front rest place : Nat} (inside : place < front + rest) :
    (wave level front rest).getD place false = if place < front then level else !level := by
  rw [wave, List.getD_eq_getElem?_getD, List.getElem?_append]
  split <;> rename_i before
  · rw [List.length_replicate] at before
    simp [before]
  · rw [List.length_replicate] at before
    simp [before, show place - front < rest by omega]

/-- The last register takes part in the wave. -/
theorem wave_getLastD (level : Bool) {front rest : Nat} (some' : 0 < front + rest) :
    (wave level front rest).getLastD false = if rest = 0 then level else !level := by
  rw [wave]
  cases rest with
  | zero =>
      obtain ⟨front, rfl⟩ := Nat.exists_eq_succ_of_ne_zero (by omega : front ≠ 0)
      simp [List.getLastD_eq_getLast?, List.getLast?_replicate]
  | succ rest => simp [List.getLastD_eq_getLast?, List.getLast?_append, List.getLast?_replicate]

/-! ### Steps -/

variable (plan : Plan)

inductive Stage (s : Shake) : Prop
  | rests (flag : s.flag = false) (clear : s.clear = false) (chain : s.chain = wave false plan.sides.length 0)
  | up (front rest : Nat) (total : front + rest = plan.sides.length) (flag : s.flag = true) (clear : s.clear = false)
      (chain : s.chain = wave true front rest)
  | down (front rest : Nat) (total : front + rest = plan.sides.length) (flag : s.flag = false)
    (clear : s.clear = true)
      (chain : s.chain = wave false front rest)

/-- Behind the strobe's edge the last register of the receiver has the new value. -/
def Sees (s : Shake) : Prop := s.strobe = true → s.chain.getD (plan.image + 1) false = true

variable {plan} {s : Shake}

theorem Plan.some (plan : Plan) : 0 < plan.sides.length := Nat.zero_lt_of_lt plan.inside

theorem wave_full (level : Bool) (front : Nat) : wave level front 0 = List.replicate front level := List.append_nil _

theorem Stage.rising_wave (stage : Stage plan s) (flag : s.flag = true) : s.clear = false ∧
    ∃ front rest, front + rest = plan.sides.length ∧ s.chain = wave true front rest := by
  cases stage with
  | up front rest total _ clear chain => exact ⟨clear, front, rest, total, chain⟩
  | rests low _ _ | down _ _ _ low _ _ =>
      rw [flag] at low
      cases low

theorem Stage.resting (stage : Stage plan s) (flag : s.flag = false) (clear : s.clear = false) :
    s.chain = List.replicate plan.sides.length false := by
  cases stage with
  | rests _ _ chain => rw [chain, wave_full]
  | up _ _ _ high _ _ =>
      rw [flag] at high
      cases high
  | down _ _ _ _ high _ =>
      rw [clear] at high
      cases high

/-- A wave that has not come to the last register does not clear the flag. -/
theorem clearNext_rising {e : Edge} {front rest : Nat} (clear : s.clear = false)
    (chain : s.chain = wave true front rest)
    (more : 0 < rest) : s.clearNext e = false := by
  rw [Shake.clearNext, chain, wave_getLastD true (by omega), clear]
  simp [show ¬ rest = 0 by omega]

theorem clearNext_resting {e : Edge} (clear : s.clear = false)
    (chain : s.chain = List.replicate plan.sides.length false) : s.clearNext e = false := by
  rw [Shake.clearNext, chain, ← wave_full, wave_getLastD false plan.some, clear]
  simp

/-- The front of a rising wave that the receiver does not see yet. -/
theorem front_early {front rest : Nat} (total : front + rest = plan.sides.length)
    (chain : s.chain = wave true front rest)
    (dark : s.chain.getD (plan.image + 1) false = false) : front ≤ plan.image + 1 := by
  have inside := plan.inside
  by_contra late
  rw [chain, wave_getD true (by omega), if_pos (by omega)] at dark
  cases dark

theorem Stage.step (stage : Stage plan s) (e : Edge) : Stage plan (s.step plan e) := by
  have some' := plan.some
  cases stage with
  | rests flag clear chain =>
      rw [wave_full] at chain
      have kept : s.clearNext e = false := clearNext_resting clear chain
      have raised : s.flagNext e = (e.ticks .sender && e.request) := by simp [Shake.flagNext, flag, clear, kept]
      cases asked : e.ticks .sender && e.request with
      | false =>
          refine .rests (raised.trans asked) kept ?_
          change shift e .sender s.flag (s.flagNext e) plan.sides s.chain = _
          rw [flag, raised, asked, chain, shift_still, wave_full]
      | true =>
          obtain ⟨front, rest, total, begins⟩ := shift_begins (e := e) true .sender plan.sides
          refine .up front rest total (raised.trans asked) kept ?_
          change shift e .sender s.flag (s.flagNext e) plan.sides s.chain = _
          rw [flag, raised, asked, chain, ← begins]
          rfl
  | up front rest total flag clear chain =>
      cases ends : s.clearNext e with
      | true =>
          have full : rest = 0 := by
            rw [Shake.clearNext, chain, wave_getLastD true (by omega), clear] at ends
            by_contra more
            simp [more] at ends
          subst full
          obtain rfl : front = plan.sides.length := by omega
          have lowered : s.flagNext e = false := by simp [Shake.flagNext, ends]
          obtain ⟨front, rest, total, begins⟩ := shift_begins (e := e) false .sender plan.sides
          refine .down front rest total lowered ends ?_
          change shift e .sender s.flag (s.flagNext e) plan.sides s.chain = _
          rw [flag, lowered, chain, wave_full, ← begins]
          rfl
      | false =>
          have raised : s.flagNext e = true := by simp [Shake.flagNext, ends, clear, flag]
          obtain ⟨front', rest', _, total', _, waves⟩ := shift_wave (e := e) true .sender plan.sides front rest total
          refine .up front' rest' total' raised ends ?_
          change shift e .sender s.flag (s.flagNext e) plan.sides s.chain = _
          rw [flag, raised, chain, waves]
  | down front rest total flag clear chain =>
      have lowered : s.flagNext e = false := by simp [Shake.flagNext, clear]
      obtain ⟨front', rest', further, total', _, waves⟩ := shift_wave
        (e := e) false .sender plan.sides front rest total
      have shifted : (s.step plan e).chain = wave false front' rest' := by
        change shift e .sender s.flag (s.flagNext e) plan.sides s.chain = _
        rw [flag, lowered, chain, waves]
      cases ends : s.clearNext e with
      | true => exact .down front' rest' total' lowered ends shifted
      | false =>
          have full : rest = 0 := by
            rw [Shake.clearNext, chain, wave_getLastD false (by omega), clear] at ends
            by_contra more
            simp [more] at ends
          obtain rfl : front' = plan.sides.length := by omega
          obtain rfl : rest' = 0 := by omega
          exact .rests lowered ends shifted

/-- A register behind one of its own side takes the old value of that one. -/
theorem shift_inner {e : Edge} {side : Side} {i : Nat} (above : Side) (old new : Bool) {sides : List Side}
    {bits : List Bool} (same : sides.length = bits.length) (first : sides[i]? = some side)
    (second : sides[i + 1]? = some side) : (shift e above old new sides bits).getD (i + 1) false =
      if e.ticks side then bits.getD i false else bits.getD (i + 1) false := by
  induction i generalizing above old new sides bits with
  | zero =>
      obtain ⟨_, _ | ⟨_, sides⟩, rfl⟩ := List.exists_cons_of_ne_nil (l := sides) (by rintro rfl; cases first)
      · cases second
      · obtain rfl := Option.some.inj first
        obtain rfl := Option.some.inj second
        match bits, same with
        | _ :: _ :: _, _ => simp [shift, next]
  | succ i ih =>
      match sides, bits, same with
      | [], _, _ => cases first
      | side' :: sides, own :: bits, same =>
          rw [shift, List.getD_cons_succ, ih _ _ _ (by simpa using same) (by simpa using first)
            (by simpa using second)]
          simp

theorem Stage.length (stage : Stage plan s) : plan.sides.length = s.chain.length := by
  cases stage with
  | rests flag clear chain => simp [chain, wave]
  | up front rest total flag clear chain => simp [chain, wave, total]
  | down front rest total flag clear chain => simp [chain, wave, total]

theorem Stage.image (stage : Stage plan s) (e : Edge) : (s.step plan e).chain.getD (plan.image + 1) false =
    if e.ticks .receiver then s.chain.getD plan.image false else s.chain.getD (plan.image + 1) false :=
  shift_inner _ _ _ stage.length plan.received.1 plan.received.2

theorem Stage.sees (stage : Stage plan s) (sees : Sees plan s) (e : Edge) : Sees plan (s.step plan e) := by
  intro strobe
  rw [stage.image]
  change (if e.ticks .receiver then _ else s.strobe) = true at strobe
  split at strobe <;> rename_i edge
  · rw [if_pos edge]
    exact (Bool.and_eq_true_iff.1 strobe).1
  · rw [if_neg edge]
    exact sees strobe

/-! ### What waits for the receiver -/

variable (plan s)

def Waiting : Prop := s.strobe = true ∨ s.flag = true ∧ s.chain.getD (plan.image + 1) false = false

/-- A request begins a hand-over. -/
def Begins (e : Edge) : Prop := (e.ticks .sender = true ∧ e.request = true) ∧ s.flag = false ∧ s.clear = false

/-- The receiver takes what has been handed over. -/
def Takes (e : Edge) : Prop := s.strobe = true ∧ e.ticks .receiver = true

variable {plan s}

/-- The receiver's edge detector sees the front of a rising wave only. -/
theorem Stage.rising (stage : Stage plan s) (before : s.chain.getD plan.image false = true)
    (behind : s.chain.getD (plan.image + 1) false = false) : s.flag = true := by
  have inside := plan.inside
  cases stage with
  | up front rest total flag clear chain => exact flag
  | rests flag clear chain =>
      rw [chain, wave_getD false (by omega)] at before
      simp [show plan.image < plan.sides.length by omega] at before
  | down front rest total flag clear chain =>
      rw [chain, wave_getD false (by omega)] at before behind
      by_cases early : plan.image < front
      · simp [early] at before
      · simp [show ¬ plan.image + 1 < front by omega] at behind

theorem raises {e : Edge} (raised : s.flagNext e = true) :
    s.flag = true ∨ Begins s e := by
  rw [Shake.flagNext] at raised
  split at raised
  · cases raised
  · rename_i still
    simp only [Bool.or_eq_true, not_or, Bool.not_eq_true] at still
    rcases Bool.or_eq_true_iff.1 raised with flag | asked
    · exact .inl flag
    · rcases Bool.eq_false_or_eq_true s.flag with flag | flag
      · exact .inl flag
      · exact .inr ⟨Bool.and_eq_true_iff.1 asked, flag, still.1⟩

/-- Whatever waits has been waiting, or begins with this event. -/
theorem waiting_before (stage : Stage plan s) (sees : Sees plan s) {e : Edge} (waits : Waiting plan (s.step plan e)) :
    Waiting plan s ∧ ¬ Takes s e ∨ Begins s e := by
  rcases waits with strobe | ⟨raised, dark⟩
  · change (if e.ticks .receiver then _ else s.strobe) = true at strobe
    split at strobe <;> rename_i edge
    · obtain ⟨before, behind⟩ := Bool.and_eq_true_iff.1 strobe
      rw [Bool.not_eq_true'] at behind
      refine .inl ⟨.inr ⟨stage.rising before behind, behind⟩, fun taken => ?_⟩
      rw [sees taken.1] at behind
      cases behind
    · exact .inl ⟨.inl strobe, fun taken => edge taken.2⟩
  · rcases raises raised with flag | begins
    · left
      obtain ⟨_, front, rest, total, chain⟩ := stage.rising_wave flag
      obtain ⟨front', rest', further, total', _, waves⟩ := shift_wave
        (e := e) true .sender plan.sides front rest total
      have shifted : (s.step plan e).chain = wave true front' rest' := by
        change s.flagNext e = true at raised
        change shift e .sender s.flag (s.flagNext e) plan.sides s.chain = _
        rw [flag, raised, chain, waves]
      have early := front_early total' shifted dark
      have inside := plan.inside
      have still : s.chain.getD (plan.image + 1) false = false := by
        rw [chain, wave_getD true (by omega)]
        simp [show ¬ plan.image + 1 < front by omega]
      refine ⟨.inr ⟨flag, still⟩, fun taken => ?_⟩
      rw [sees taken.1] at still
      cases still
    · exact .inr begins

/-- Nothing is lost before the receiver takes it. -/
theorem waiting_after (stage : Stage plan s) {e : Edge} (waits : Waiting plan s) (kept : ¬ Takes s e) :
    Waiting plan (s.step plan e) := by
  rcases waits with strobe | ⟨flag, dark⟩
  · left
    change (if e.ticks .receiver then _ else s.strobe) = true
    rw [if_neg fun edge => kept ⟨strobe, edge⟩, strobe]
  · obtain ⟨clear, front, rest, total, chain⟩ := stage.rising_wave flag
    have early := front_early total chain dark
    have inside := plan.inside
    have raised : (s.step plan e).flag = true := by
      change s.flagNext e = true
      simp [Shake.flagNext, clearNext_rising clear chain (by omega), clear, flag]
    rcases Bool.eq_false_or_eq_true ((s.step plan e).chain.getD (plan.image + 1) false) with bright | still
    · left
      rw [stage.image] at bright
      split at bright <;> rename_i edge
      · change (if e.ticks .receiver then _ else s.strobe) = true
        rw [if_pos edge, bright, dark]
        rfl
      · rw [dark] at bright
        cases bright
    · exact .inr ⟨raised, still⟩

theorem Stage.dark (stage : Stage plan s) (flag : s.flag = false) (clear : s.clear = false) (place : Nat) :
    s.chain.getD place false = false := by
  rw [stage.resting flag clear, List.getD_eq_getElem?_getD, List.getElem?_replicate]
  split <;> rfl

/-- Without a request nothing begins. -/
theorem Stage.quiet (stage : Stage plan s) {e : Edge} (flag : s.flag = false) (clear : s.clear = false)
    (none : ¬ Begins s e) : (s.step plan e).flag = false ∧ (s.step plan e).clear = false := by
  have kept : s.clearNext e = false := clearNext_resting clear (stage.resting flag clear)
  refine ⟨?_, kept⟩
  change s.flagNext e = false
  rw [Shake.flagNext, kept, clear, flag, Bool.or_false, if_neg Bool.false_ne_true, Bool.false_or, Bool.eq_false_iff]
  exact fun asked => none ⟨Bool.and_eq_true_iff.1 asked, flag, clear⟩

theorem Stage.idle (stage : Stage plan s) (sees : Sees plan s) (flag : s.flag = false) (clear : s.clear = false) :
    ¬ Waiting plan s := by
  rintro (strobe | ⟨high, _⟩)
  · have bright := sees strobe
    rw [stage.dark flag clear] at bright
    cases bright
  · rw [flag] at high
    cases high

theorem Begins.idle (stage : Stage plan s) (sees : Sees plan s) {e : Edge} (begins : Begins s e) :
    ¬ Waiting plan s := stage.idle sees begins.2.1 begins.2.2

theorem Begins.waits (stage : Stage plan s) {e : Edge} (begins : Begins s e) : Waiting plan (s.step plan e) := by
  have resting := stage.resting begins.2.1 begins.2.2
  refine .inr ⟨?_, ?_⟩
  · change s.flagNext e = true
    simp [Shake.flagNext, clearNext_resting begins.2.2 resting, begins.2.2, begins.1.1, begins.1.2]
  · rw [stage.image]
    split <;> exact stage.dark begins.2.1 begins.2.2 _

/-! ### Progress -/

variable (plan s)

/-- How many registers of the receiver's path have not yet seen the flag. -/
def rank : Nat := if s.strobe then 0 else plan.image + 2 - s.chain.count true

/-- The side whose next edge brings the wave on. -/
def due (rank : Nat) : Side := if rank = 0 then .receiver else plan.sides.getD (plan.image + 2 - rank) .receiver

variable {plan s}

theorem wave_count (front rest : Nat) : (wave true front rest).count true = front := by
  simp [wave, List.count_replicate]

theorem rank_step (stage : Stage plan s) {e : Edge} (waits : Waiting plan s) (kept : ¬ Takes s e) :
    rank plan (s.step plan e) ≤ rank plan s ∧
      (e.ticks (due plan (rank plan s)) = true → rank plan (s.step plan e) < rank plan s) := by
  have later := waiting_after stage waits kept
  rcases Bool.eq_false_or_eq_true s.strobe with strobe | quiet
  · have still : e.ticks .receiver ≠ true := fun edge => kept ⟨strobe, edge⟩
    have stays : (s.step plan e).strobe = true := by
      change (if e.ticks .receiver then _ else s.strobe) = true
      rw [if_neg still, strobe]
    rw [rank, rank, if_pos strobe, if_pos stays]
    exact ⟨le_rfl, fun edge => absurd edge still⟩
  · obtain ⟨flag, dark⟩ : s.flag = true ∧ s.chain.getD (plan.image + 1) false = false := by
      rcases waits with strobe | waits
      · rw [quiet] at strobe
        cases strobe
      · exact waits
    obtain ⟨clear, front, rest, total, chain⟩ := stage.rising_wave flag
    obtain ⟨front', rest', further, total', moves, waves⟩ :=
      shift_wave (e := e) true .sender plan.sides front rest total
    have early := front_early total chain dark
    have inside := plan.inside
    have before : rank plan s = plan.image + 2 - front := by
      rw [rank, quiet, chain, wave_count]
      rfl
    rcases Bool.eq_false_or_eq_true (s.step plan e).strobe with strobe | quiet'
    · have behind : rank plan (s.step plan e) = 0 := by rw [rank, if_pos strobe]
      omega
    · obtain ⟨raised, dark'⟩ : s.flagNext e = true ∧ (s.step plan e).chain.getD (plan.image + 1) false = false := by
        rcases later with strobe | waits'
        · rw [quiet'] at strobe
          cases strobe
        · exact waits'
      have shifted : (s.step plan e).chain = wave true front' rest' := by
        change shift e .sender s.flag (s.flagNext e) plan.sides s.chain = _
        rw [flag, raised, chain, waves]
      have behind : rank plan (s.step plan e) = plan.image + 2 - front' := by
        rw [rank, quiet', shifted, wave_count]
        rfl
      rw [before, behind]
      refine ⟨by omega, fun edge => ?_⟩
      -- the register at the front is the one that is due
      rw [due, if_neg (by omega), show plan.image + 2 - (plan.image + 2 - front) = front by omega] at edge
      have place : plan.sides[front]? = some (plan.sides.getD front .receiver) := by
        rw [List.getD_eq_getElem?_getD, List.getElem?_eq_getElem (by omega)]
        rfl
      have beyond := moves _ place edge
      omega

/-! ### Runs -/

section Runs

variable {t : Nat → Shake} {e : Nat → Edge}

/-- A run from a state in which nothing is handed over. -/
structure Runs (plan : Plan) (t : Nat → Shake) (e : Nat → Edge) : Prop where
  start : (t 0).flag = false ∧ (t 0).clear = false ∧ (t 0).strobe = false ∧
    (t 0).chain = List.replicate plan.sides.length false
  step : ∀ n, t (n + 1) = (t n).step plan (e n)

/-- Both clocks run for ever. -/
def Fair (e : Nat → Edge) : Prop := ∀ side n, ∃ m, n ≤ m ∧ (e m).ticks side = true

/-- The hand-over that begins at `m` ends at `n`. -/
structure Ends (t : Nat → Shake) (e : Nat → Edge) (m n : Nat) : Prop where
  begins : Begins (t m) (e m)
  takes : Takes (t n) (e n)
  order : m < n
  last : ∀ k, m < k → k ≤ n → ¬ Begins (t k) (e k)

theorem Runs.inv (runs : Runs plan t e) (n : Nat) : Stage plan (t n) ∧ Sees plan (t n) := by
  induction n with
  | zero =>
      obtain ⟨flag, clear, strobe, chain⟩ := runs.start
      refine ⟨.rests flag clear (by rw [chain, wave_full]), fun high => ?_⟩
      rw [strobe] at high
      cases high
  | succ n ih =>
      rw [runs.step]
      exact ⟨ih.1.step (e n), ih.1.sees ih.2 (e n)⟩

theorem Runs.begun (runs : Runs plan t e) {n : Nat} (waits : Waiting plan (t n)) :
    ∃ m < n, Begins (t m) (e m) ∧ ∀ k, m < k → k ≤ n → Waiting plan (t k) := by
  induction n with
  | zero =>
      obtain ⟨flag, _, strobe, _⟩ := runs.start
      rcases waits with high | ⟨high, _⟩
      · rw [strobe] at high
        cases high
      · rw [flag] at high
        cases high
  | succ n ih =>
      have now := waits
      rw [runs.step] at waits
      rcases waiting_before (runs.inv n).1 (runs.inv n).2 waits with ⟨before, _⟩ | begins
      · obtain ⟨m, earlier, begins, all⟩ := ih before
        refine ⟨m, by omega, begins, fun k after' upTo => ?_⟩
        rcases Nat.le_succ_iff.1 upTo with upTo | rfl
        · exact all k after' upTo
        · exact now
      · refine ⟨n, Nat.lt_succ_self n, begins, fun k after' upTo => ?_⟩
        obtain rfl : k = n + 1 := by omega
        exact now

theorem Runs.ends_of_waiting (runs : Runs plan t e) {m n : Nat} (begins : Begins (t m) (e m))
    (takes : Takes (t n) (e n)) (order : m < n) (waits : ∀ k, m < k → k ≤ n → Waiting plan (t k)) : Ends t e m n :=
  ⟨begins, takes, order, fun k after' upTo again => again.idle (runs.inv k).1 (runs.inv k).2 (waits k after' upTo)⟩

/-- Every strobe ends a hand-over, during which the receiver was waited for. -/
theorem Runs.ended (runs : Runs plan t e) {n : Nat} (takes : Takes (t n) (e n)) :
    ∃ m, Ends t e m n ∧ ∀ k, m < k → k ≤ n → Waiting plan (t k) := by
  obtain ⟨m, before, begins, waits⟩ := runs.begun (.inl takes.1)
  exact ⟨m, runs.ends_of_waiting begins takes before waits, waits⟩

theorem Ends.start_unique {m m' n : Nat} (first : Ends t e m n) (second : Ends t e m' n) : m = m' := by
  rcases lt_trichotomy m m' with before | same | behind
  · exact absurd second.begins (first.last m' before (Nat.le_of_lt second.order))
  · exact same
  · exact absurd first.begins (second.last m behind (Nat.le_of_lt first.order))

theorem Runs.idle (runs : Runs plan t e) {m n : Nat} (idle : ¬ Waiting plan (t m)) (order : m ≤ n)
    (none : ∀ k, m ≤ k → k < n → ¬ Begins (t k) (e k)) : ¬ Waiting plan (t n) := by
  induction n, order using Nat.le_induction with
  | base => exact idle
  | succ n later ih =>
      intro waits
      rw [runs.step] at waits
      rcases waiting_before (runs.inv n).1 (runs.inv n).2 waits with ⟨before, _⟩ | begins
      · exact ih (fun k from' before => none k from' (by omega)) before
      · exact none n later (Nat.lt_succ_self n) begins

/-- What has been handed over is taken once. -/
theorem Ends.unique (runs : Runs plan t e) {m n n' : Nat} (first : Ends t e m n) (second : Ends t e m n') : n =
    n' := by
  have once {n n' : Nat} (first : Ends t e m n) (second : Ends t e m n') : ¬ n < n' := by
    intro before
    have order := first.order
    have idle : ¬ Waiting plan (t (n + 1)) := by
      intro waits
      rw [runs.step] at waits
      rcases waiting_before (runs.inv n).1 (runs.inv n).2 waits with ⟨_, kept⟩ | begins
      · exact kept first.takes
      · exact first.last n order le_rfl begins
    exact runs.idle idle before (fun k from' before => second.last k (by omega) (Nat.le_of_lt before))
      (.inl second.takes.1)
  have upper := once first second
  have lower := once second first
  omega

theorem Runs.taken (runs : Runs plan t e) (fair : Fair e) {k : Nat} (waits : Waiting plan (t k)) :
    ∃ n, k ≤ n ∧ Takes (t n) (e n) ∧ ∀ j, k ≤ j → j ≤ n → Waiting plan (t j) := by
  induction rest : rank plan (t k) using Nat.strong_induction_on generalizing k with
  | _ r closer =>
      subst rest
      obtain ⟨edge, later, ticks⟩ := fair (due plan (rank plan (t k))) k
      -- up to the next edge of the side that is due the rank may stay as it is
      obtain ⟨d, rfl⟩ := Nat.exists_eq_add_of_le later
      clear later
      induction d generalizing k with
      | zero =>
          by_cases now : Takes (t k) (e k)
          · exact ⟨k, le_rfl, now, fun j from' upTo => by rwa [show j = k by omega]⟩
          · have down := (rank_step (runs.inv k).1 waits now).2 ticks
            have next := waiting_after (runs.inv k).1 waits now
            rw [← runs.step] at down next
            obtain ⟨n, order, takes, all⟩ := closer _ down next rfl
            refine ⟨n, by omega, takes, fun j from' upTo => ?_⟩
            rcases Nat.eq_or_lt_of_le from' with rfl | beyond
            · exact waits
            · exact all j beyond upTo
      | succ d ih =>
          by_cases now : Takes (t k) (e k)
          · exact ⟨k, le_rfl, now, fun j from' upTo => by rwa [show j = k by omega]⟩
          · have down := (rank_step (runs.inv k).1 waits now).1
            have next := waiting_after (runs.inv k).1 waits now
            rw [← runs.step] at down next
            have goes : ∃ n, k + 1 ≤ n ∧ Takes (t n) (e n) ∧ ∀ j, k + 1 ≤ j → j ≤ n → Waiting plan (t j) := by
              rcases Nat.eq_or_lt_of_le down with same | less
              · refine ih next (fun r lower => closer r (same ▸ lower)) ?_
                rwa [same, Nat.add_right_comm]
              · exact closer _ less next rfl
            obtain ⟨n, order, takes, all⟩ := goes
            refine ⟨n, by omega, takes, fun j from' upTo => ?_⟩
            rcases Nat.eq_or_lt_of_le from' with rfl | beyond
            · exact waits
            · exact all j beyond upTo

/-- Where nothing waits any more, it has been taken. -/
theorem Runs.taken_before (runs : Runs plan t e) {k n : Nat} (waits : Waiting plan (t k)) (order : k ≤ n)
    (idle : ¬ Waiting plan (t n)) : ∃ m, k ≤ m ∧ m < n ∧ Takes (t m) (e m) ∧
      ∀ j, k ≤ j → j ≤ m → Waiting plan (t j) := by
  obtain ⟨d, rfl⟩ := Nat.exists_eq_add_of_le order
  clear order
  induction d generalizing k with
  | zero => exact absurd waits idle
  | succ d ih =>
      by_cases now : Takes (t k) (e k)
      · exact ⟨k, le_rfl, by omega, now, fun j from' upTo => by rwa [show j = k by omega]⟩
      · have next := waiting_after (runs.inv k).1 waits now
        rw [← runs.step] at next
        obtain ⟨m, order, before, takes, all⟩ := ih next (by rwa [Nat.add_right_comm])
        refine ⟨m, by omega, by omega, takes, fun j from' upTo => ?_⟩
        rcases Nat.eq_or_lt_of_le from' with rfl | beyond
        · exact waits
        · exact all j beyond upTo

/-- While both clocks run, whatever is handed over is taken. -/
theorem Runs.ends (runs : Runs plan t e) (fair : Fair e) {m : Nat} (begins : Begins (t m) (e m)) :
    ∃ n, Ends t e m n := by
  have waits := begins.waits (runs.inv m).1
  rw [← runs.step] at waits
  obtain ⟨n, order, takes, all⟩ := runs.taken fair waits
  exact ⟨n, runs.ends_of_waiting begins takes order all⟩

end Runs

end WrCores.Clocked.HandOver
