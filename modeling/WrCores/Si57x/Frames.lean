import WrCores.Si57x.Interface

/-!
What a listener on the lines of the state machine has heard in each state: the three transactions of an update, with
the bytes of the frequency as they have gone out so far. One step of a call is one step of the listener.
-/

namespace WrCores.Si57x

open Clocked I2c

/-! ### What is to be heard -/

/-- The N1 bits and the frequency, in five bytes. -/
def dataByte (c : Config) (w : BitVec 38) (k : Nat) : BitVec 8 := (c.n1 ++ w).extractLsb' (32 - 8 * k) 8

def data (c : Config) (w : BitVec 38) (k : Nat) : List (BitVec 8) := (List.range k).map (dataByte c w)

def freeze : List (BitVec 8) := [0xaa#8, 0x87#8, 0x20#8]

def update (c : Config) (w : BitVec 38) : List (BitVec 8) := [0xaa#8, 0x08#8] ++ data c w 5

def release : List (BitVec 8) := [0xaa#8, 0x87#8, 0x00#8]

/-- The three transactions that bring the frequency `w` to the oscillator. -/
def transactions (c : Config) (w : BitVec 38) : List (List (BitVec 8)) := [freeze, update c w, release]

theorem call_siRf0 (c : Config) (w : BitVec 38) : call c w .siRf0 = some ⟨dataByte c w 0, .sendByte, .siRf1⟩ := by
  simp only [call, dataByte, Option.some.injEq, Call.mk.injEq, and_true]
  refine BitVec.eq_of_getLsbD_eq fun j less => ?_
  simp only [BitVec.getLsbD_append, BitVec.getLsbD_extractLsb', less, decide_true, Bool.true_and]
  rcases Nat.lt_or_ge j 6 with low | high
  · simp [low, show 32 + j < 38 by omega]
  · simp [show ¬ j < 6 by omega, show ¬ 32 + j < 38 by omega, show 32 + j - 38 = j - 6 by omega]

theorem extract_word {c : Config} {w : BitVec 38} (low : Nat) (inside : low ≤ 30) :
    w.extractLsb' low 8 = (c.n1 ++ w).extractLsb' low 8 := by
  refine BitVec.eq_of_getLsbD_eq fun j less => ?_
  rw [BitVec.getLsbD_extractLsb', BitVec.getLsbD_extractLsb', BitVec.getLsbD_append]
  simp [show low + j < 38 by omega]

/-! ### What was heard before a state -/

/-- The transactions of the update that are complete when a state is entered, and the bytes of the present one. -/
def before (c : Config) (w : BitVec 38) : FsmState → List (List (BitVec 8)) × Option (List (BitVec 8))
  | .idle | .siStart0 => ([], none)
  | .siAddr0 => ([], some [])
  | .siReg0 => ([], some [0xaa#8])
  | .siFreeze0 => ([], some [0xaa#8, 0x87#8])
  | .siStop0 => ([], some freeze)
  | .siStart1 => ([freeze], none)
  | .siAddr1 => ([freeze], some [])
  | .siReg1 => ([freeze], some [0xaa#8])
  | .siRf0 => ([freeze], some [0xaa#8, 0x08#8])
  | .siRf1 => ([freeze], some ([0xaa#8, 0x08#8] ++ data c w 1))
  | .siRf2 => ([freeze], some ([0xaa#8, 0x08#8] ++ data c w 2))
  | .siRf3 => ([freeze], some ([0xaa#8, 0x08#8] ++ data c w 3))
  | .siRf4 => ([freeze], some ([0xaa#8, 0x08#8] ++ data c w 4))
  | .siStop1 => ([freeze], some (update c w))
  | .siStart2 => ([freeze, update c w], none)
  | .siAddr2 => ([freeze, update c w], some [])
  | .siReg2 => ([freeze, update c w], some [0xaa#8])
  | .siFreeze2 => ([freeze, update c w], some [0xaa#8, 0x87#8])
  | .siStop2 => ([freeze, update c w], some release)

/-- What the call in a state adds. -/
def Adds (c : Config) (w : BitVec 38) (state : FsmState) (k : Call) : Prop :=
  match k.transType with
  | .start => (before c w state).2 = none ∧ before c w k.nextState = ((before c w state).1, some [])
  | .sendByte => ∃ bytes, (before c w state).2 = some bytes ∧
      before c w k.nextState = ((before c w state).1, some (bytes ++ [k.value]))
  | .stop => ∃ bytes, (before c w state).2 = some bytes ∧
      if k.nextState = .idle then (before c w state).1 ++ [bytes] = transactions c w
      else before c w k.nextState = ((before c w state).1 ++ [bytes], none)

theorem call_adds {c : Config} {w : BitVec 38} {state : FsmState} {k : Call} (called : call c w state = some k) :
    Adds c w state k := by
  have grows (n : Nat) : data c w (n + 1) = data c w n ++ [dataByte c w n] := by
    rw [data, List.range_succ, List.map_append]
    rfl
  have bytes : w.extractLsb' 24 8 = dataByte c w 1 ∧ w.extractLsb' 16 8 = dataByte c w 2 ∧
      w.extractLsb' 8 8 = dataByte c w 3 ∧ w.extractLsb' 0 8 = dataByte c w 4 :=
    ⟨extract_word 24 (by omega), extract_word 16 (by omega), extract_word 8 (by omega), extract_word 0 (by omega)⟩
  cases state with
  | siRf0 =>
      rw [call_siRf0] at called
      obtain rfl := Option.some.inj called
      exact ⟨_, rfl, by simp [before, data]⟩
  | siRf1 | siRf2 | siRf3 | siRf4 =>
      obtain rfl := Option.some.inj called
      exact ⟨_, rfl, by simp [before, update, grows, bytes]⟩
  | siStop0 | siStop1 | siStop2 =>
      obtain rfl := Option.some.inj called
      exact ⟨_, rfl, rfl⟩
  | idle => cases called
  | siStart0 | siStart1 | siStart2 =>
      obtain rfl := Option.some.inj called
      exact ⟨rfl, rfl⟩
  | _ =>
      obtain rfl := Option.some.inj called
      exact ⟨_, rfl, rfl⟩

/-! ### One call on the lines -/

/-- Where the listener is in a call that sends `value`, as the count goes on. -/
inductive Talks (value : BitVec 8) : I2cTransaction → Option (List (BitVec 8)) → Nat → Bool → Bool → Phase → Prop
  | start {n : Nat} (early : n ≤ 1) : Talks value .start none n true true .free
  | started : Talks value .start none 2 true false (.frame [] 0 0#8 none)
  | low {bytes : List (BitVec 8)} {j : Nat} {sda : Bool} (inside : j ≤ 8) :
      Talks value .sendByte (some bytes) (4 * j) false sda (.frame bytes j (first value j) none)
  | put {bytes : List (BitVec 8)} {j : Nat} {sda : Bool} (inside : j ≤ 8) (sent : j < 8 → sda = bitAt value j) :
      Talks value .sendByte (some bytes) (4 * j + 1) false sda (.frame bytes j (first value j) none)
  | high {bytes : List (BitVec 8)} {j : Nat} {sda : Bool} (inside : j ≤ 8) (sent : j < 8 → sda = bitAt value j) :
      Talks value .sendByte (some bytes) (4 * j + 2) true sda (.frame bytes j (first value j) (some sda))
  | fallen {bytes : List (BitVec 8)} {j : Nat} {sda : Bool} (inside : j < 8) :
      Talks value .sendByte (some bytes) (4 * j + 3) false sda (.frame bytes (j + 1) (first value (j + 1)) none)
  | stop {bytes : List (BitVec 8)} {sda : Bool} : Talks value .stop (some bytes) 0 false sda (.frame bytes 0 0#8 none)
  | pulled {bytes : List (BitVec 8)} : Talks value .stop (some bytes) 1 false false (.frame bytes 0 0#8 none)
  | raised {bytes : List (BitVec 8)} : Talks value .stop (some bytes) 2 true false (.frame bytes 0 0#8 (some false))

/-- The last step of a call has been made. -/
def Ended (value : BitVec 8) (l l' : Listener) : I2cTransaction → Option (List (BitVec 8)) → Prop
  | .start, _ => l'.scl = false ∧ l'.phase = .frame [] 0 0#8 none ∧ l'.heard = l.heard
  | .sendByte, bytes => l'.scl = false ∧ l'.phase = .frame (bytes.getD [] ++ [value]) 0 0#8 none ∧ l'.heard = l.heard
  | .stop, bytes => l'.scl = true ∧ l'.sda = true ∧ l'.phase = .free ∧ l'.heard = l.heard ++ [bytes.getD []]

theorem phase_of_count {f : Fsm} {n : Nat} (count : f.seqCount = BitVec.ofNat 9 n) : f.phase = n % 4 := by
  rw [Fsm.phase, count, BitVec.extractLsb'_toNat, BitVec.toNat_ofNat, Nat.shiftRight_zero]
  omega

theorem place_of_count {f : Fsm} {n : Nat} (count : f.seqCount = BitVec.ofNat 9 n) :
    (f.seqCount.extractLsb' 2 3).toNat = n / 4 % 8 := by
  rw [count, BitVec.extractLsb'_toNat, BitVec.toNat_ofNat, Nat.shiftRight_eq_div_pow]
  omega

theorem ninth_of_count {f : Fsm} {n : Nat} (count : f.seqCount = BitVec.ofNat 9 n) :
    f.seqCount.getLsbD 5 = decide (n / 32 % 2 = 1) := by
  rw [count, BitVec.getLsbD_ofNat, Nat.testBit_eq_decide_div_mod_eq]
  simp

theorem Talks.sendByte {value : BitVec 8} {bytes : List (BitVec 8)} {sda : Bool} :
    Talks value .sendByte (some bytes) 0 false sda (.frame bytes 0 0#8 none) := by
  have start := @Talks.low value bytes 0 sda (Nat.zero_le 8)
  rwa [first_zero] at start

theorem lines_state (f : Fsm) (value : BitVec 8) (type : I2cTransaction) : (f.lines value type).state = f.state := by
  cases type <;> rw [Fsm.lines] <;> split <;> rfl

theorem going {f : Fsm} {value : BitVec 8} {type : I2cTransaction} {next : FsmState} (more : f.last type = false) :
    f.fI2cIterate value true type next = { f.lines value type with seqCount := f.seqCount + 1 } := by
  rw [Fsm.fI2cIterate, more]
  rfl

theorem ending {f : Fsm} {value : BitVec 8} {type : I2cTransaction} {next : FsmState} (last : f.last type = true) :
    f.fI2cIterate value true type next = { f.lines value type with state := next, seqCount := 0#9 } := by
  rw [Fsm.fI2cIterate, last]
  rfl

/-- A step of a call with `other` for its value, which may differ from what the listener gets to hear only in bits that
are not due yet. -/
theorem talks_step {f : Fsm} {l : Listener} {value other : BitVec 8} {type : I2cTransaction} (next : FsmState)
    {bytes : Option (List (BitVec 8))} {n : Nat} (talks : Talks value type bytes n f.scl f.sda l.phase)
    (count : f.seqCount = BitVec.ofNat 9 n) (scl : l.scl = f.scl) (sda : l.sda = f.sda)
    (due : n % 4 = 0 → n / 4 < 8 → bitAt other (n / 4) = bitAt value (n / 4)) :
    let f' := f.fI2cIterate other true type next
    let l' := l.hear f'.scl f'.sda
    f'.state = f.state ∧ f'.seqCount = BitVec.ofNat 9 (n + 1) ∧ l'.heard = l.heard ∧
        Talks value type bytes (n + 1) f'.scl f'.sda l'.phase ∨
      f'.state = next ∧ f'.seqCount = 0#9 ∧ Ended value l l' type bytes := by
  have phase := phase_of_count count
  have place := place_of_count count
  have ninth := ninth_of_count count
  have counted : f.seqCount + 1 = BitVec.ofNat 9 (n + 1) := by rw [count, BitVec.ofNat_add]; rfl
  obtain ⟨state, seqCount, fscl, fsda⟩ := f
  obtain ⟨lscl, lsda, lphase, heard⟩ := l
  dsimp only at scl sda count counted talks
  subst scl sda
  cases talks with
  | start early =>
      rcases Nat.le_one_iff_eq_zero_or_eq_one.1 early with rfl | rfl
      · rw [going (by rw [Fsm.last, phase]; rfl)]
        simp only [Fsm.lines, phase]
        exact .inl ⟨trivial, counted, rfl, .start le_rfl⟩
      · rw [going (by rw [Fsm.last, phase]; rfl)]
        simp only [Fsm.lines, phase]
        exact .inl ⟨trivial, counted, rfl, .started⟩
  | started =>
      rw [ending (by rw [Fsm.last, phase]; rfl)]
      simp only [Fsm.lines, phase]
      exact .inr ⟨trivial, trivial, rfl, rfl, rfl⟩
  | @low bytes j _ inside =>
      rw [Nat.mul_mod_right] at phase
      rw [Nat.mul_div_cancel_left j (by omega)] at place due
      rw [going (by rw [Fsm.last, phase]; rfl)]
      simp only [Fsm.lines, phase, place]
      exact .inl ⟨trivial, counted, rfl, .put inside (due (Nat.mul_mod_right 4 j))⟩
  | @put bytes j _ inside sent =>
      rw [show (4 * j + 1) % 4 = 1 by omega] at phase
      rw [going (by rw [Fsm.last, phase]; rfl)]
      simp only [Fsm.lines, phase]
      rw [Listener.hear_rise (by rfl)]
      exact .inl ⟨trivial, counted, rfl, .high inside sent⟩
  | @high bytes j _ inside sent =>
      rw [show (4 * j + 2) % 4 = 2 by omega] at phase
      rcases Nat.lt_or_eq_of_le inside with more | rfl
      · rw [decide_eq_false (by omega)] at ninth
        rw [going (by rw [Fsm.last, phase, ninth]; rfl)]
        simp only [Fsm.lines, phase]
        rw [Listener.hear_fall (by rfl)]
        refine .inl ⟨trivial, counted, rfl, ?_⟩
        simp only [Phase.fall, if_neg more.ne, sent more, ← first_succ value more]
        exact .fallen more
      · rw [ending (by rw [Fsm.last, phase, ninth]; rfl)]
        simp only [Fsm.lines, phase]
        rw [Listener.hear_fall (by rfl)]
        refine .inr ⟨trivial, trivial, rfl, ?_, rfl⟩
        simp only [Phase.fall, if_pos, first_eight, Option.getD_some]
  | @fallen bytes j _ inside =>
      rw [show (4 * j + 3) % 4 = 3 by omega] at phase
      rw [going (by rw [Fsm.last, phase]; rfl)]
      simp only [Fsm.lines, phase]
      rw [Listener.hear_same (by rfl) (by rfl)]
      exact .inl ⟨trivial, counted, rfl, .low (j := j + 1) inside⟩
  | stop =>
      rw [going (by rw [Fsm.last, phase]; rfl)]
      simp only [Fsm.lines, phase]
      rw [Listener.hear_low _ (by rfl)]
      exact .inl ⟨trivial, counted, rfl, .pulled⟩
  | pulled =>
      rw [going (by rw [Fsm.last, phase]; rfl)]
      simp only [Fsm.lines, phase]
      rw [Listener.hear_rise (by rfl)]
      exact .inl ⟨trivial, counted, rfl, .raised⟩
  | raised =>
      rw [ending (by rw [Fsm.last, phase]; rfl)]
      simp only [Fsm.lines, phase]
      rw [Listener.hear_stop (by rfl) (by rfl) (by rfl)]
      exact .inr ⟨trivial, trivial, rfl, rfl, rfl, rfl⟩

/-! ### The whole state machine -/

/-- What the listener has heard, where `w` is the frequency of the present update as far as it is on the line and
`done` is what was heard before. -/
structure Heard (c : Config) (w : BitVec 38) (f : Fsm) (l : Listener) (done : List (List (BitVec 8))) : Prop where
  scl : l.scl = f.scl
  sda : l.sda = f.sda
  heard : l.heard = done ++ (before c w f.state).1
  talks : match call c w f.state with
    | none => f.seqCount = 0#9 ∧ f.scl = true ∧ f.sda = true ∧ l.phase = .free
    | some k => ∃ n, f.seqCount = BitVec.ofNat 9 n ∧
        Talks k.value k.transType (before c w f.state).2 n f.scl f.sda l.phase

/-- A state is entered with SCL low in a frame, and with both lines released between two of them. -/
theorem heard_entered {c : Config} {w : BitVec 38} {f : Fsm} {l : Listener} {done : List (List (BitVec 8))}
    (scl : l.scl = f.scl) (sda : l.sda = f.sda) (heard : l.heard = done ++ (before c w f.state).1)
    (count : f.seqCount = 0#9)
    (lines : match (before c w f.state).2 with
      | none => f.scl = true ∧ f.sda = true ∧ l.phase = .free
      | some bytes => f.scl = false ∧ l.phase = .frame bytes 0 0#8 none) : Heard c w f l done := by
  refine ⟨scl, sda, heard, ?_⟩
  obtain ⟨state, seqCount, fscl, fsda⟩ := f
  dsimp only at lines count
  cases state with
  | idle => exact ⟨count, lines⟩
  | siStart0 | siStart1 | siStart2 =>
      obtain ⟨high, released, free⟩ := lines
      refine ⟨0, count, ?_⟩
      dsimp only
      rw [high, released, free]
      exact .start (Nat.zero_le 1)
  | siStop0 | siStop1 | siStop2 =>
      obtain ⟨low, frame⟩ := lines
      refine ⟨0, count, ?_⟩
      dsimp only
      rw [low, frame]
      exact .stop
  | _ =>
      obtain ⟨low, frame⟩ := lines
      refine ⟨0, count, ?_⟩
      dsimp only
      rw [low, frame]
      exact .sendByte

/-- The states that send the frequency. -/
def rf : FsmState → Option Nat
  | .siRf0 => some 0
  | .siRf1 => some 1
  | .siRf2 => some 2
  | .siRf3 => some 3
  | .siRf4 => some 4
  | _ => none

theorem call_rf {state : FsmState} {k : Nat} (c : Config) (sends : rf state = some k) :
    k < 5 ∧ (∃ next, ∀ w, call c w state = some ⟨dataByte c w k, .sendByte, next⟩) ∧
      ∀ w, before c w state = ([freeze], some ([0xaa#8, 0x08#8] ++ data c w k)) := by
  cases state with
  | siRf0 =>
      obtain rfl := Option.some.inj sends
      exact ⟨by decide, ⟨_, call_siRf0 c⟩, fun w => rfl⟩
  | siRf1 =>
      obtain rfl := Option.some.inj sends
      refine ⟨by decide, ⟨.siRf2, fun w => ?_⟩, fun w => rfl⟩
      exact congrArg (fun byte => some (Call.mk byte .sendByte .siRf2)) (extract_word 24 (by decide))
  | siRf2 =>
      obtain rfl := Option.some.inj sends
      refine ⟨by decide, ⟨.siRf3, fun w => ?_⟩, fun w => rfl⟩
      exact congrArg (fun byte => some (Call.mk byte .sendByte .siRf3)) (extract_word 16 (by decide))
  | siRf3 =>
      obtain rfl := Option.some.inj sends
      refine ⟨by decide, ⟨.siRf4, fun w => ?_⟩, fun w => rfl⟩
      exact congrArg (fun byte => some (Call.mk byte .sendByte .siRf4)) (extract_word 8 (by decide))
  | siRf4 =>
      obtain rfl := Option.some.inj sends
      refine ⟨by decide, ⟨.siStop1, fun w => ?_⟩, fun w => rfl⟩
      exact congrArg (fun byte => some (Call.mk byte .sendByte .siStop1)) (extract_word 0 (by decide))
  | _ => cases sends

theorem call_other {state : FsmState} (c : Config) (other : rf state = none) (w x : BitVec 38) :
    call c w state = call c x state := by
  cases state with
  | siRf0 | siRf1 | siRf2 | siRf3 | siRf4 => cases other
  | _ => rfl

theorem call_none {c : Config} {w : BitVec 38} {state : FsmState} (none : call c w state = none) : state = .idle := by
  cases state <;> first | rfl | cases none

theorem Talks.count {value : BitVec 8} {type : I2cTransaction} {bytes : Option (List (BitVec 8))} {n : Nat}
    {scl sda : Bool} {phase : Phase} (talks : Talks value type bytes n scl sda phase) : n ≤ 34 := by
  cases talks <;> omega

theorem Talks.framed {value : BitVec 8} {type : I2cTransaction} {bytes : Option (List (BitVec 8))} {n : Nat}
    {scl sda : Bool} {phase : Phase} (talks : Talks value type bytes n scl sda phase) : phase ≠ .broken := by
  cases talks <;> exact Phase.noConfusion

/-- The call with another frequency differs in its value only, and there in a byte of the frequency. -/
theorem call_with {c : Config} {w : BitVec 38} {state : FsmState} {k : Call} (called : call c w state = some k)
    (x : BitVec 38) : ∃ other, call c x state = some ⟨other, k.transType, k.nextState⟩ ∧
      ∀ j, (∀ m, rf state = some m → bitAt (dataByte c x m) j = bitAt (dataByte c w m) j) →
        bitAt other j = bitAt k.value j := by
  cases sends : rf state with
  | none => exact ⟨k.value, (call_other c sends x w).trans called, fun _ _ => rfl⟩
  | some m =>
      obtain ⟨next, calls⟩ := (call_rf c sends).2.1
      rw [calls w] at called
      obtain rfl := Option.some.inj called
      exact ⟨_, calls x, fun _ due => due m rfl⟩

/-- The next state is entered. -/
theorem heard_ended {c : Config} {w : BitVec 38} {f f' : Fsm} {l l' : Listener} {k : Call}
    {done : List (List (BitVec 8))} (called : call c w f.state = some k)
      (heard : l.heard = done ++ (before c w f.state).1)
    (scl : l'.scl = f'.scl) (sda : l'.sda = f'.sda) (state : f'.state = k.nextState) (count : f'.seqCount = 0#9)
    (ended : Ended k.value l l' k.transType (before c w f.state).2) :
    Heard c w f' l' (if f'.state = .idle then done ++ transactions c w else done) := by
  have adds := call_adds called
  obtain ⟨value, type, next⟩ := k
  dsimp only at state
  cases type with
  | start =>
      obtain ⟨-, entered⟩ := adds
      obtain ⟨low, phase, same⟩ := ended
      have busy : next ≠ .idle := by rintro rfl; cases congrArg Prod.snd entered
      rw [state, if_neg busy]
      refine heard_entered scl sda ?_ count ?_
      · rw [state, same, heard, entered]
      · rw [state, entered]
        exact ⟨scl ▸ low, phase⟩
  | sendByte =>
      obtain ⟨bytes, sent, entered⟩ := adds
      obtain ⟨low, phase, same⟩ := ended
      have busy : next ≠ .idle := by rintro rfl; cases congrArg Prod.snd entered
      rw [state, if_neg busy]
      refine heard_entered scl sda ?_ count ?_
      · rw [state, same, heard, entered]
      · rw [state, entered]
        exact ⟨scl ▸ low, by rw [phase, sent]; rfl⟩
  | stop =>
      obtain ⟨bytes, sent, entered⟩ := adds
      obtain ⟨high, released, free, more⟩ := ended
      rw [sent, Option.getD_some, heard, List.append_assoc] at more
      rw [state]
      by_cases idle : next = .idle
      · subst idle
        rw [if_pos rfl]
        rw [if_pos rfl] at entered
        refine heard_entered scl sda ?_ count ?_
        · rw [state, more, entered]
          exact (List.append_nil _).symm
        · rw [state]
          exact ⟨scl ▸ high, sda ▸ released, free⟩
      · rw [if_neg idle]
        rw [if_neg idle] at entered
        refine heard_entered scl sda ?_ count ?_
        · rw [state, more, entered]
        · rw [state, entered]
          exact ⟨scl ▸ high, sda ▸ released, free⟩

/-- A step with `x` for the frequency, if the bit that it puts on the line is that of `w`. -/
theorem heard_step {c : Config} {w x : BitVec 38} {f : Fsm} {l : Listener} {done : List (List (BitVec 8))}
    (heard : Heard c w f l done) (newRfreq tick : Bool)
    (due : tick = true → f.seqCount.toNat % 4 = 0 → f.seqCount.toNat / 4 < 8 → ∀ m, rf f.state = some m →
      bitAt (dataByte c x m) (f.seqCount.toNat / 4) = bitAt (dataByte c w m) (f.seqCount.toNat / 4)) :
    let f' := f.step c x newRfreq tick
    Heard c w f' (l.hear f'.scl f'.sda)
      (if f.state ≠ .idle ∧ f'.state = .idle then done ++ transactions c w else done) := by
  obtain ⟨scl, sda, before, talks⟩ := heard
  cases called : call c w f.state with
  | none =>
      have idle := call_none called
      have here : call c x f.state = none := by rw [idle]; rfl
      rw [called] at talks
      simp only [Fsm.step, here]
      cases newRfreq with
      | true =>
          rw [if_pos rfl, Listener.hear_same scl sda, if_neg (by simp [idle])]
          refine heard_entered scl sda ?_ talks.1 talks.2
          rw [before, idle]
          rfl
      | false =>
          rw [if_neg Bool.false_ne_true, Listener.hear_same scl sda, if_neg (by simp [idle])]
          exact ⟨scl, sda, before, by rw [called]; exact talks⟩
  | some k =>
      rw [called] at talks
      obtain ⟨n, count, talks⟩ := talks
      have busy : f.state ≠ .idle := by
        rintro idle
        rw [idle] at called
        cases called
      obtain ⟨other, here, bits⟩ := call_with called x
      simp only [Fsm.step, here]
      cases tick with
      | false =>
          have still : f.fI2cIterate other false k.transType k.nextState = f := rfl
          rw [still, Listener.hear_same scl sda, if_neg (fun both => both.1 both.2)]
          exact ⟨scl, sda, before, by rw [called]; exact ⟨n, count, talks⟩⟩
      | true =>
          have number : f.seqCount.toNat = n := by
            rw [count, BitVec.toNat_ofNat, Nat.mod_eq_of_lt (talks.count.trans_lt (by decide))]
          rw [number] at due
          rcases talks_step k.nextState talks count scl sda fun start inside => bits _ (due rfl start inside) with
            ⟨state, counted, heard, talks⟩ | ⟨state, counted, ended⟩
          · rw [state, if_neg (fun both => both.1 both.2)]
            refine ⟨rfl, rfl, ?_, ?_⟩
            · rw [heard, before, state]
            · rw [state, called]
              exact ⟨n + 1, counted, talks⟩
          · simp only [busy, ne_eq, not_false_eq_true, true_and]
            exact heard_ended called before rfl rfl state counted ended

end WrCores.Si57x
