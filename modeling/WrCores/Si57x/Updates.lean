import WrCores.Si57x.Frames

/-!
Runs of the interface. The frames are right in every run; the frequency of an update is one that was written as long as
no strobe changes a bit of it that is on the line already, and it is the last that was written unless that happens
before the end.
-/

namespace WrCores.Si57x

open Clocked I2c

/-! ### The bits on the line -/

/-- The bits of a byte that have been on the line when the count is `n`. -/
def bitsOut (n : Nat) : Nat := min 8 ((n + 3) / 4)

/-- The bits of the data of an update that have been on the line. -/
def picked (n : Nat) : FsmState → Nat
  | .siRf0 => bitsOut n
  | .siRf1 => 8 + bitsOut n
  | .siRf2 => 16 + bitsOut n
  | .siRf3 => 24 + bitsOut n
  | .siRf4 => 32 + bitsOut n
  | .siStop1 | .siStart2 | .siAddr2 | .siReg2 | .siFreeze2 | .siStop2 => 40
  | _ => 0

/-- Two frequencies with the same first `n` bits of the data. -/
def Same (c : Config) (n : Nat) (w x : BitVec 38) : Prop :=
  ∀ j < n, (c.n1 ++ w).getMsbD j = (c.n1 ++ x).getMsbD j

theorem data_bit (c : Config) (w : BitVec 38) (k : Nat) {j : Nat} (byte : k < 5) (inside : j < 8) :
    bitAt (dataByte c w k) j = (c.n1 ++ w).getMsbD (8 * k + j) := by
  rw [bitAt, dataByte, BitVec.getLsbD_extractLsb', Nat.mod_eq_of_lt inside, decide_eq_true (by omega), Bool.true_and,
    BitVec.getMsbD_eq_getLsbD, decide_eq_true (by omega), Bool.true_and]
  congr 1
  omega

theorem Same.dataByte {c : Config} {n k : Nat} {w x : BitVec 38} (same : Same c n w x) (byte : k < 5)
    (whole : 8 * (k + 1) ≤ n) : dataByte c w k = dataByte c x k :=
  byte_ext fun j inside => by
    rw [data_bit c w k byte inside, data_bit c x k byte inside, same _ (by omega)]

theorem Same.data {c : Config} {n k : Nat} {w x : BitVec 38} (same : Same c n w x) (bytes : k ≤ 5)
    (whole : 8 * k ≤ n) : data c w k = data c x k :=
  List.map_congr_left fun m inside => by
    have less := List.mem_range.1 inside
    exact same.dataByte (by omega) (by omega)

theorem Talks.congr {value other : BitVec 8} {bytes : Option (List (BitVec 8))} {n : Nat}
    {scl sda : Bool} {phase : Phase} (talks : Talks value .sendByte bytes n scl sda phase)
    (same : ∀ j < bitsOut n, bitAt value j = bitAt other j) : Talks other .sendByte bytes n scl sda phase := by
  cases talks with
  | @low bytes j _ inside =>
      rw [first_congr inside fun k less => same k (by rw [bitsOut]; omega)]
      exact .low inside
  | @put bytes j _ inside sent =>
      rw [first_congr inside fun k less => same k (by rw [bitsOut]; omega)]
      exact .put inside fun more => (sent more).trans (same j (by rw [bitsOut]; omega))
  | @high bytes j _ inside sent =>
      rw [first_congr inside fun k less => same k (by rw [bitsOut]; omega)]
      exact .high inside fun more => (sent more).trans (same j (by rw [bitsOut]; omega))
  | @fallen bytes j _ inside =>
      rw [first_congr inside fun k less => same k (by rw [bitsOut]; omega)]
      exact .fallen inside

theorem picked_rf {state : FsmState} {k : Nat} (sends : rf state = some k) (n : Nat) :
    picked n state = 8 * k + bitsOut n := by
  cases state with
  | siRf0 | siRf1 | siRf2 | siRf3 | siRf4 =>
      obtain rfl := Option.some.inj sends
      simp [picked]
  | _ => cases sends

theorem Same.all {c : Config} {w x : BitVec 38} (same : Same c 40 w x) : w = x := by
  refine BitVec.eq_of_getLsbD_eq fun j less => ?_
  have here := same (39 - j) (by omega)
  rw [BitVec.getMsbD_eq_getLsbD, BitVec.getMsbD_eq_getLsbD, show 2 + 38 - 1 - (39 - j) = j by omega,
    BitVec.getLsbD_append, BitVec.getLsbD_append, if_pos less, if_pos less] at here
  simpa [show 39 - j < 40 by omega] using here

/-- What has been heard is the same for all frequencies with the same bits on the line. -/
theorem Heard.congr {c : Config} {w x : BitVec 38} {f : Fsm} {l : Listener} {done : List (List (BitVec 8))}
    (heard : Heard c w f l done) (same : Same c (picked f.seqCount.toNat f.state) w x) : Heard c x f l done := by
  obtain ⟨scl, sda, heard, talks⟩ := heard
  cases sends : rf f.state with
  | some k =>
      obtain ⟨byte, ⟨next, calls⟩, sent⟩ := call_rf c sends
      rw [picked_rf sends] at same
      have bytes : data c w k = data c x k := same.data (by omega) (Nat.le_add_right _ _)
      simp only [sent, calls, bytes] at heard talks
      obtain ⟨n, count, talks⟩ := talks
      have number : f.seqCount.toNat = n := by
        rw [count, BitVec.toNat_ofNat, Nat.mod_eq_of_lt (talks.count.trans_lt (by decide))]
      refine ⟨scl, sda, by rw [sent]; exact heard, ?_⟩
      simp only [sent, calls]
      refine ⟨n, count, talks.congr fun j less => ?_⟩
      have inside : j < 8 := less.trans_le (Nat.min_le_left _ _)
      rw [data_bit c w k byte inside, data_bit c x k byte inside, same _ (by rw [number]; omega)]
  | none =>
      have kept : before c w f.state = before c x f.state := by
        cases state : f.state with
        | siRf0 | siRf1 | siRf2 | siRf3 | siRf4 => rw [state] at sends; cases sends
        | siStop1 | siStart2 | siAddr2 | siReg2 | siFreeze2 | siStop2 =>
            rw [state] at same
            rw [same.all]
        | _ => rfl
      rw [kept] at heard
      rw [call_other c sends w x, kept] at talks
      exact ⟨scl, sda, heard, talks⟩

/-- A frequency with the bits of `w` that are on the line and the next bit of `x`. -/
theorem exists_next (c : Config) (w x : BitVec 38) (n : Nat) :
    ∃ y, Same c n w y ∧ (c.n1 ++ y).getMsbD n = (c.n1 ++ x).getMsbD n := by
  by_cases equal : (c.n1 ++ w).getMsbD n = (c.n1 ++ x).getMsbD n
  · exact ⟨w, fun _ _ => rfl, equal⟩
  · have word : 2 ≤ n ∧ n < 40 := by
      constructor
      · by_contra head
        exact equal (by rw [BitVec.getMsbD_append, BitVec.getMsbD_append, if_neg head, if_neg head])
      · by_contra past
        exact equal (by rw [BitVec.getMsbD_of_ge _ _ (by omega), BitVec.getMsbD_of_ge _ _ (by omega)])
    have flipped (j : Nat) : (c.n1 ++ (w ^^^ BitVec.twoPow 38 (39 - n))).getMsbD j =
        ((c.n1 ++ w).getMsbD j ^^ decide (j = n)) := by
      rw [BitVec.getMsbD_append, BitVec.getMsbD_append, BitVec.getMsbD_xor, BitVec.getMsbD_twoPow]
      by_cases early : 2 ≤ j
      · rw [if_pos early, if_pos early, decide_eq_true (show 39 - n < 38 by omega), Bool.true_and]
        congr 2
        exact propext (by omega)
      · rw [if_neg early, if_neg early, decide_eq_false (by omega), Bool.xor_false]
    refine ⟨w ^^^ BitVec.twoPow 38 (39 - n), fun j less => ?_, ?_⟩
    · rw [flipped, decide_eq_false less.ne, Bool.xor_false]
    · rw [flipped, decide_eq_true rfl, Bool.xor_true]
      exact (Bool.not_eq.2 equal)

/-- Of the frequencies with the bits of `w` that are on the line, one has the bit that is due from `x`. -/
theorem exists_due (c : Config) (w x : BitVec 38) (f : Fsm) :
    ∃ y, Same c (picked f.seqCount.toNat f.state) w y ∧
      (f.seqCount.toNat % 4 = 0 → f.seqCount.toNat / 4 < 8 → ∀ m, rf f.state = some m →
        bitAt (dataByte c x m) (f.seqCount.toNat / 4) = bitAt (dataByte c y m) (f.seqCount.toNat / 4)) := by
  by_cases due : f.seqCount.toNat % 4 = 0 ∧ f.seqCount.toNat / 4 < 8
  · obtain ⟨start, inside⟩ := due
    cases sends : rf f.state with
    | none => exact ⟨w, fun _ _ => rfl, fun _ _ _ other => by cases other⟩
    | some k =>
        have byte := (call_rf c sends).1
        obtain ⟨y, same, next⟩ := exists_next c w x (8 * k + f.seqCount.toNat / 4)
        refine ⟨y, ?_, ?_⟩
        · rw [picked_rf sends]
          exact fun j less => same j (by rw [bitsOut] at less; omega)
        · rintro - - m here
          obtain rfl := Option.some.inj here
          rw [data_bit c x _ byte inside, data_bit c y _ byte inside, next]
  · exact ⟨w, fun _ _ => rfl, fun start inside => absurd ⟨start, inside⟩ due⟩

/-! ### Runs -/

/-- The bits of the data that have been on the line by the end of a cycle, until the last step of `SI_STOP2`. -/
def State.taken (s : State) : Nat :=
  if s.i2cTick ∧ s.fsm.state = .siStop2 ∧ s.fsm.phase = 2 then 0
  else picked (s.fsm.seqCount.toNat + s.i2cTick.toNat) s.fsm.state

/-- A strobe writes a frequency with the bits that are on the line already. -/
def Agrees (c : Config) (s : State) (i : In) : Prop :=
  i.tmDacValueWrI = true → Same c s.taken s.rfreqCurrent (c.rfreq i.tmDacValueI)

/-- What a strobe writes, if there is one. -/
def strobes (c : Config) (i : In) : List (BitVec 38) := if i.tmDacValueWrI then [c.rfreq i.tmDacValueI] else []

variable (c : Config) (s : State) (i : Nat → In)

def stateAt (u : Nat) : State := run (fun s i => s.step c i) s (upTo i u)

/-- The listener on `scl_out_fsm` and `sda_out_fsm`. -/
def listenerAt : Nat → Listener
  | 0 => .fresh
  | u + 1 => (listenerAt u).hear (stateAt c s i (u + 1)).fsm.scl (stateAt c s i (u + 1)).fsm.sda

/-- What has been written before the cycle `u`. -/
def written (u : Nat) : List (BitVec 38) := (upTo i u).flatMap (strobes c)

variable {c s i}

theorem stateAt_succ (u : Nat) : stateAt c s i (u + 1) = (stateAt c s i u).step c (i u) := by
  rw [stateAt, upTo_snoc, run_append]
  rfl

theorem written_succ (u : Nat) : written c i (u + 1) = written c i u ++ strobes c (i u) := by
  rw [written, upTo_snoc, List.flatMap_append, ← written, List.flatMap_singleton]

theorem heard_reset (reset : AfterReset s) (w : BitVec 38) : Heard c w s.fsm .fresh [] := by
  rw [reset.fsm]
  exact heard_entered rfl rfl rfl rfl ⟨rfl, rfl, rfl⟩

theorem flatMap_grown (words : List (BitVec 38)) (w : BitVec 38) (grown : Prop) [Decidable grown] :
    (if grown then words.flatMap (transactions c) ++ transactions c w else words.flatMap (transactions c)) =
      (if grown then words ++ [w] else words).flatMap (transactions c) := by
  split <;> simp

/-- What the listener has heard are updates with the frequencies `words`, the last of them perhaps on its way. -/
structure Updates (c : Config) (words : List (BitVec 38)) (s : State) (l : Listener) : Prop where
  framed : l.phase ≠ .broken
  heard : l.heard <+: words.flatMap (transactions c)
  idle : s.fsm.state = .idle → l.phase = .free ∧ l.heard = words.flatMap (transactions c)

theorem before_starts (c : Config) (w : BitVec 38) (state : FsmState) : (before c w state).1 <+: transactions c w := by
  cases state with
  | siStart1 | siAddr1 | siReg1 | siRf0 | siRf1 | siRf2 | siRf3 | siRf4 | siStop1 => exact ⟨[update c w, release], rfl⟩
  | siStart2 | siAddr2 | siReg2 | siFreeze2 | siStop2 => exact ⟨[release], rfl⟩
  | _ => exact List.nil_prefix

theorem updates_of_heard {s : State} {w : BitVec 38} {l : Listener} {words : List (BitVec 38)}
    (heard : Heard c w s.fsm l (words.flatMap (transactions c))) :
    Updates c (if s.fsm.state = .idle then words else words ++ [w]) s l := by
  obtain ⟨-, -, heard, talks⟩ := heard
  cases called : call c w s.fsm.state with
  | none =>
      rw [called] at talks
      have idle := call_none called
      rw [idle, before, List.append_nil] at heard
      rw [if_pos idle]
      exact ⟨by simp [talks.2.2.2], heard ▸ List.prefix_rfl, fun _ => ⟨talks.2.2.2, heard⟩⟩
  | some k =>
      rw [called] at talks
      obtain ⟨n, -, talks⟩ := talks
      have busy : s.fsm.state ≠ .idle := by
        rintro idle
        rw [idle] at called
        cases called
      rw [if_neg busy]
      refine ⟨?_, ?_, fun idle => absurd idle busy⟩
      · exact talks.framed
      · rw [heard, List.flatMap_append, List.flatMap_singleton]
        exact List.prefix_append_right_inj _ |>.2 (before_starts ..)

/-- In every run the listener hears updates, whatever the frequencies in them. -/
theorem framed (reset : AfterReset s) (u : Nat) : ∃ words, Updates c words (stateAt c s i u) (listenerAt c s i u) := by
  obtain ⟨words, w, heard⟩ : ∃ (words : List (BitVec 38)) (w : BitVec 38),
      Heard c w (stateAt c s i u).fsm (listenerAt c s i u) (words.flatMap (transactions c)) := by
    induction u with
    | zero => exact ⟨[], 0#38, heard_reset reset _⟩
    | succ u ih =>
        obtain ⟨words, w, heard⟩ := ih
        obtain ⟨y, kept, due⟩ := exists_due c w (stateAt c s i u).rfreqCurrent (stateAt c s i u).fsm
        have next := heard_step (heard.congr kept) (stateAt c s i u).newRfreq (stateAt c s i u).i2cTick fun _ => due
        dsimp only at next
        rw [flatMap_grown] at next
        rw [listenerAt, stateAt_succ]
        exact ⟨_, y, next⟩
  exact ⟨_, updates_of_heard heard⟩

/-- The bits on the line after a step are the ones that count for a strobe in it. -/
theorem picked_step {s : State} {w : BitVec 38} {l : Listener} {done : List (List (BitVec 8))}
    (heard : Heard c w s.fsm l done) {f : Fsm} (next : f = s.fsm.step c s.rfreqCurrent s.newRfreq s.i2cTick) :
    picked f.seqCount.toNat f.state ≤ s.taken := by
  cases called : call c w s.fsm.state with
  | none =>
      have idle := call_none called
      rw [Fsm.step, idle] at next
      have early : picked f.seqCount.toNat f.state = 0 := by
        rw [next]
        cases s.newRfreq <;> simp [call, picked, idle]
      exact early ▸ Nat.zero_le _
  | some k =>
      have talks := heard.talks
      rw [called] at talks
      obtain ⟨n, count, talks⟩ := talks
      obtain ⟨other, here, -⟩ := call_with called s.rfreqCurrent
      have number : s.fsm.seqCount.toNat = n := by
        rw [count, BitVec.toNat_ofNat, Nat.mod_eq_of_lt (talks.count.trans_lt (by decide))]
      have phase := phase_of_count count
      simp only [Fsm.step, here] at next
      cases tick : s.i2cTick with
      | false =>
          rw [tick] at next
          have still : f = s.fsm := next
          rw [still, State.taken, if_neg (by simp [tick]), tick]
          rfl
      | true =>
          rw [tick] at next
          cases last : s.fsm.last k.transType with
          | false =>
              rw [going last] at next
              have state : f.state = s.fsm.state := by rw [next]; exact lines_state ..
              have open' : ¬ (s.i2cTick = true ∧ s.fsm.state = .siStop2 ∧ s.fsm.phase = 2) := by
                rintro ⟨-, stop, two⟩
                rw [stop] at called
                obtain rfl := Option.some.inj called
                simp [Fsm.last, two] at last
              rw [State.taken, if_neg open', state, number, tick, next, count]
              refine le_of_eq (congrArg (picked · _) ?_)
              have counted : BitVec.ofNat 9 n + 1 = BitVec.ofNat 9 (n + 1) := (BitVec.ofNat_add n 1).symm
              exact counted ▸ (BitVec.toNat_ofNat ..).trans
                (Nat.mod_eq_of_lt (Nat.lt_of_le_of_lt (Nat.succ_le_succ talks.count) (by decide)))
          | true =>
              rw [ending last] at next
              have late : k.transType = .sendByte → bitsOut (n + 1) = 8 := by
                intro type
                rw [type, Fsm.last, Bool.and_eq_true, ninth_of_count count, decide_eq_true_iff] at last
                rw [bitsOut]
                omega
              rw [next, State.taken, tick, number]
              cases state : s.fsm.state with
              | idle => rw [state] at called; cases called
              | siRf0 | siRf1 | siRf2 | siRf3 | siRf4 =>
                  rw [state] at called
                  obtain rfl := Option.some.inj called
                  simp [picked, late rfl, show bitsOut 0 = 0 from rfl]
              | siStop2 =>
                  rw [state] at called
                  obtain rfl := Option.some.inj called
                  simp [picked]
              | _ =>
                  rw [state] at called
                  obtain rfl := Option.some.inj called
                  simp [picked, bitsOut]

/-- What holds as long as no strobe changes a bit that is on the line: `old` is what has been written, and `words` are
the frequencies of the complete updates. -/
structure Kept (c : Config) (s : State) (l : Listener) (old words : List (BitVec 38)) : Prop where
  heard : Heard c s.rfreqCurrent s.fsm l (words.flatMap (transactions c))
  whole : ∀ w ∈ words, w ∈ old
  current : old = [] ∨ old.getLast? = some s.rfreqCurrent
  begun : s.fsm.state ≠ .idle ∨ s.newRfreq = true → old ≠ []
  ended : s.fsm.state = .idle → s.newRfreq = false → words.getLast? = old.getLast?

theorem kept_reset (reset : AfterReset s) : Kept c s .fresh [] [] where
  heard := heard_reset reset _
  whole := by simp
  current := .inl rfl
  begun := by simp [reset.fsm, reset.newRfreq]
  ended _ _ := rfl

theorem kept_step {l : Listener} {old words : List (BitVec 38)} {i : In} (kept : Kept c s l old words)
    (agrees : Agrees c s i) :
    ∃ words', Kept c (s.step c i) (l.hear (s.step c i).fsm.scl (s.step c i).fsm.sda) (old ++ strobes c i) words' := by
  obtain ⟨heard, whole, current, begun, ended⟩ := kept
  have next := heard_step heard s.newRfreq s.i2cTick fun _ _ _ _ _ => rfl
  dsimp only at next
  rw [flatMap_grown] at next
  have same : Same c (picked (s.step c i).fsm.seqCount.toNat (s.step c i).fsm.state) s.rfreqCurrent
      (s.step c i).rfreqCurrent := by
    simp only [State.step]
    split
    · exact fun j less => agrees ‹_› j (less.trans_le (picked_step heard rfl))
    · exact fun _ _ => rfl
  have last (busy : s.fsm.state ≠ .idle) : old.getLast? = some s.rfreqCurrent :=
    current.resolve_left (begun (.inl busy))
  have fsm : (s.step c i).fsm = s.fsm.step c s.rfreqCurrent s.newRfreq s.i2cTick := rfl
  have leaves (idle : s.fsm.state = .idle) : (s.step c i).fsm.state = if s.newRfreq then .siStart0 else .idle := by
    rw [fsm, Fsm.step, idle]
    cases s.newRfreq <;> simp [call, idle]
  refine ⟨_, next.congr same, ?_, ?_, ?_, ?_⟩
  · intro w inside
    split at inside
    · rename_i complete
      rcases List.mem_append.1 inside with earlier | now
      · exact List.mem_append_left _ (whole w earlier)
      · rw [List.mem_singleton.1 now]
        exact List.mem_append_left _ (List.mem_of_getLast? (last complete.1))
    · exact List.mem_append_left _ (whole w inside)
  · cases strobe : i.tmDacValueWrI with
    | true => exact .inr (by simp [strobes, State.step, strobe])
    | false => simpa [strobes, State.step, strobe] using current
  · intro busy none
    obtain ⟨nothing, quiet⟩ := List.append_eq_nil_iff.1 none
    have strobe : i.tmDacValueWrI = false := by
      by_contra strobe
      simp [strobes, strobe] at quiet
    have rest : s.fsm.state = .idle ∧ s.newRfreq = false := by
      by_contra working
      exact begun (by by_contra out; exact working (by simpa using out)) nothing
    rcases busy with away | pending
    · exact away (by rw [leaves rest.1, rest.2]; rfl)
    · simp [State.step, strobe] at pending
  · intro idle quiet
    have strobe : i.tmDacValueWrI = false := quiet
    rw [strobes, strobe, if_neg Bool.false_ne_true, List.append_nil]
    by_cases rest : s.fsm.state = .idle
    · rw [if_neg (fun both => both.1 rest)]
      refine ended rest ?_
      by_contra pending
      rw [leaves rest, Bool.eq_true_of_not_eq_false pending] at idle
      cases idle
    · rw [if_pos ⟨rest, idle⟩, last rest, List.getLast?_concat]

theorem kept_run (reset : AfterReset s) (agrees : Throughout (fun s i => s.step c i) (Agrees c) s i) (u : Nat) :
    ∃ words, Kept c (stateAt c s i u) (listenerAt c s i u) (written c i u) words := by
  induction u with
  | zero => exact ⟨[], kept_reset reset⟩
  | succ u ih =>
      obtain ⟨words, kept⟩ := ih
      obtain ⟨more, next⟩ := kept_step kept (throughout_iff.1 agrees u)
      rw [listenerAt, stateAt_succ, written_succ]
      exact ⟨more, next⟩

/-- The pads follow the state machine wherever it is not in `IDLE`. -/
theorem pads_follow (u : Nat) (busy : (stateAt c s i u).fsm.state ≠ .idle) :
    (stateAt c s i (u + 1)).sclPadOenO = (stateAt c s i u).fsm.scl ∧
      (stateAt c s i (u + 1)).sdaPadOenO = (stateAt c s i u).fsm.sda := by
  rw [stateAt_succ]
  exact ⟨if_neg busy, if_neg busy⟩

/-- As long as no strobe changes a bit that is on the line, each update sends a frequency that was written, and the last
one the frequency that was written last once nothing is on the way. -/
theorem updates_whole (reset : AfterReset s) (agrees : Throughout (fun s i => s.step c i) (Agrees c) s i) (u : Nat) :
    ∃ words, (∀ w ∈ words, w ∈ written c i u) ∧ Updates c words (stateAt c s i u) (listenerAt c s i u) ∧
      ((stateAt c s i u).fsm.state = .idle → (stateAt c s i u).newRfreq = false →
        words.getLast? = (written c i u).getLast?) ∧
      ((stateAt c s i u).fsm.state ≠ .idle → (stateAt c s i (u + 1)).sclPadOenO = (stateAt c s i u).fsm.scl ∧
        (stateAt c s i (u + 1)).sdaPadOenO = (stateAt c s i u).fsm.sda) := by
  obtain ⟨words, heard, whole, current, begun, ended⟩ := kept_run reset agrees u
  refine ⟨_, ?_, updates_of_heard heard, ?_, pads_follow u⟩
  · split
    · exact whole
    · rename_i busy
      intro w inside
      rcases List.mem_append.1 inside with earlier | now
      · exact whole w earlier
      · rw [List.mem_singleton.1 now]
        exact List.mem_of_getLast? (current.resolve_left (begun (.inl busy)))
  · intro idle quiet
    rw [if_pos idle]
    exact ended idle quiet

/-! ### A strobe in the middle of an update -/

def blank : State := ⟨0#38, false, 0#5, false, ⟨.idle, 0#9, true, true⟩, true, true, true, true⟩

theorem blank_reset : AfterReset blank := ⟨rfl, rfl, rfl, rfl, rfl, rfl⟩

def zero : Config := ⟨0#32, 0#8⟩

def quiet : In := ⟨0#24, false, false, false, false, false, false, false⟩

/-- One strobe, in the first cycle. -/
def once (t : Nat) : In := if t = 0 then { quiet with tmDacValueWrI := true } else quiet

theorem once_whole : ∃ words, (∀ w ∈ words, w ∈ written zero once 15169) ∧
    Updates zero words (stateAt zero blank once 15169) (listenerAt zero blank once 15169) ∧
      ((stateAt zero blank once 15169).fsm.state = .idle → (stateAt zero blank once 15169).newRfreq = false →
        words.getLast? = (written zero once 15169).getLast?) ∧
      ((stateAt zero blank once 15169).fsm.state ≠ .idle →
        (stateAt zero blank once (15169 + 1)).sclPadOenO = (stateAt zero blank once 15169).fsm.scl ∧
          (stateAt zero blank once (15169 + 1)).sdaPadOenO = (stateAt zero blank once 15169).fsm.sda) := by
  refine updates_whole blank_reset (throughout_iff.2 fun u strobe => ?_) 15169
  rcases u with _ | u
  · exact fun j none => absurd none j.not_lt_zero
  · exact absurd strobe (by simp [once, quiet])

/-- A second strobe, with -1, when 17 bits of the first are on the line. -/
def twice (t : Nat) : In :=
  if t = 0 then { quiet with tmDacValueWrI := true }
  else if t = 8161 then { quiet with tmDacValueI := 0xffff#24, tmDacValueWrI := true } else quiet

/-- The state machine, the listener and `rfreq_current` in the cycles with a tick, from the first one in `SI_START0`. -/
def beats : Nat → Fsm × Listener × BitVec 38
  | 0 => (⟨.siStart0, 0#9, true, true⟩, .fresh, 0#38)
  | n + 1 =>
      let f := (beats n).1.step zero (beats n).2.2 false true
      (f, (beats n).2.1.hear f.scl f.sda, if n = 254 then BitVec.allOnes 38 else (beats n).2.2)

/-- Between two ticks nothing changes. -/
structure Beat (s : State) (l : Listener) (m : Nat) : Prop where
  fsm : s.fsm = (beats ((m + 31) / 32)).1
  listener : l = (beats ((m + 31) / 32)).2.1
  frequency : s.rfreqCurrent = (beats ((m + 31) / 32)).2.2
  lines : l.scl = s.fsm.scl ∧ l.sda = s.fsm.sda
  divider : s.i2cDivider = BitVec.ofNat 5 (m + 1)
  tick : s.i2cTick = decide (m % 32 = 0)
  strobe : s.newRfreq = decide (m = 8129)

theorem still {f : Fsm} {x : BitVec 38} {newRfreq : Bool} (busy : newRfreq = true → f.state ≠ .idle) :
    f.step c x newRfreq false = f := by
  rw [Fsm.step]
  cases called : call c x f.state with
  | none =>
      have waits : newRfreq = false := by
        by_contra pending
        exact busy (Bool.eq_true_of_not_eq_false pending) (call_none called)
      simp [waits]
  | some k => rfl

theorem twice_beats (m : Nat) :
    Beat (stateAt zero blank twice (33 + m)) (listenerAt zero blank twice (33 + m)) m := by
  induction m with
  | zero => exact ⟨by decide +kernel, by decide +kernel, by decide +kernel, by decide +kernel, by decide +kernel,
      by decide +kernel, by decide +kernel⟩
  | succ m ih =>
      rw [← Nat.add_assoc, listenerAt, stateAt_succ]
      obtain ⟨fsm, listener, frequency, lines, divider, tick, strobe⟩ := ih
      generalize stateAt zero blank twice (33 + m) = s at *
      generalize listenerAt zero blank twice (33 + m) = l at *
      have second : (twice (33 + m)).tmDacValueWrI = decide (m = 8128) ∧
          (m = 8128 → zero.rfreq (twice (33 + m)).tmDacValueI = BitVec.allOnes 38) := by
        by_cases here : m = 8128
        · subst here
          decide
        · simp [twice, quiet, here, show 33 + m ≠ 8161 by omega]
      have divided : s.i2cDivider + 1 = BitVec.ofNat 5 (m + 1 + 1) := by
        rw [divider]
        exact (BitVec.ofNat_add (m + 1) 1).symm
      have ticked : (s.i2cDivider == 0) = decide ((m + 1) % 32 = 0) := by
        rw [divider, Bool.eq_iff_iff, beq_iff_eq, decide_eq_true_iff, ← BitVec.toNat_inj, BitVec.toNat_ofNat]
        rfl
      have strobed : (twice (33 + m)).tmDacValueWrI = decide (m + 1 = 8129) :=
        second.1.trans (decide_eq_decide.2 (by omega))
      by_cases turn : m % 32 = 0
      · obtain ⟨n, rfl⟩ : ∃ n, m = 32 * n := ⟨m / 32, by omega⟩
        rw [show (32 * n + 31) / 32 = n by omega] at fsm listener frequency
        rw [decide_eq_true turn] at tick
        rw [decide_eq_false (by omega)] at strobe
        have after : (32 * n + 1 + 31) / 32 = n + 1 := by omega
        have stepped : s.fsm.step zero s.rfreqCurrent s.newRfreq s.i2cTick = (beats (n + 1)).1 := by
          rw [fsm, frequency, strobe, tick]
          rfl
        refine ⟨?_, ?_, ?_, ⟨rfl, rfl⟩, divided, ticked, strobed⟩
        · rw [after]
          exact stepped
        · rw [after, listener]
          simp only [State.step, stepped]
          rfl
        · rw [after]
          simp only [State.step, second.1, frequency, beats]
          by_cases here : n = 254
          · subst here
            rw [decide_eq_true rfl, if_pos rfl, if_pos rfl]
            exact second.2 rfl
          · simp [here, show 32 * n ≠ 8128 by omega]
      · have after : (m + 1 + 31) / 32 = (m + 31) / 32 := by omega
        rw [decide_eq_false turn] at tick
        have stepped : (s.step zero (twice (33 + m))).fsm = s.fsm := by
          simp only [State.step, tick]
          refine still fun pending => ?_
          rw [strobe, decide_eq_true_iff] at pending
          rw [fsm, pending]
          decide +kernel
        refine ⟨?_, ?_, ?_, ⟨rfl, rfl⟩, divided, ticked, strobed⟩
        · rw [after, stepped, fsm]
        · rw [after, stepped, Listener.hear_same lines.1 lines.2, listener]
        · rw [after, ← frequency]
          simp only [State.step, second.1]
          rw [decide_eq_false (by omega), if_neg Bool.false_ne_true]

/-- The bytes of both strobes go out in one update. -/
theorem bytes_mixed : AfterReset blank ∧ ¬ ∃ words, (∀ w ∈ words, w ∈ written zero twice 15169) ∧
    Updates zero words (stateAt zero blank twice 15169) (listenerAt zero blank twice 15169) := by
  refine ⟨blank_reset, ?_⟩
  rintro ⟨words, whole, updates⟩
  have beat := twice_beats 15136
  have idle : (stateAt zero blank twice 15169).fsm.state = .idle := by
    rw [show 15169 = 33 + 15136 from rfl, beat.fsm]
    decide +kernel
  have heard : (listenerAt zero blank twice 15169).heard =
      [freeze, [0xaa#8, 0x08#8, 0x00#8, 0x00#8, 0x7f#8, 0xff#8, 0xff#8], release] := by
    rw [show 15169 = 33 + 15136 from rfl, beat.listener]
    decide +kernel
  have sent := (updates.idle idle).2
  rw [heard] at sent
  rcases words with _ | ⟨w, rest⟩
  · cases sent
  · obtain ⟨x, input, strobe⟩ := List.mem_flatMap.1 (whole w List.mem_cons_self)
    obtain ⟨m, -, rfl⟩ := mem_upTo.1 input
    have second := (List.cons_eq_cons.1 (List.cons_eq_cons.1 sent).2).1
    by_cases first : m = 0
    · rw [twice, if_pos first] at strobe
      rw [List.mem_singleton.1 strobe] at second
      exact absurd second (by decide)
    · by_cases other : m = 8161
      · rw [twice, if_neg first, if_pos other] at strobe
        rw [List.mem_singleton.1 strobe] at second
        exact absurd second (by decide)
      · rw [twice, if_neg first, if_neg other] at strobe
        cases strobe

end WrCores.Si57x
