import WrCores.Clocked.Stream
import WrCores.Eca.Wbm
import Mathlib.Data.Nat.Count

/-!
The channel input of eca_ac_wbm.vhd between its two clocks: `r_channel` captures an action under clk_ref and is released
by a falling edge of busy behind three registers there; its valid bit goes through three registers under clk_sys, and
the state machine looks at it where it rises. Edges of the two clocks come in any order, also at once.
-/

namespace WrCores.Eca.WbmChannel

open Clocked

/-- The fields of `t_channel` that eca_ac_wbm reads. -/
structure TChannel where
  valid : Bool
  conflict : Bool
  late : Bool
  event : BitVec 64
  param : BitVec 64
  tag : BitVec 32
  tef : BitVec 32
  deadline : BitVec 64
  deriving DecidableEq, Repr

def TChannel.none : TChannel := ⟨false, false, false, 0, 0, 0, 0, 0⟩

/-- `r_valid_sync` and `r_busy_sync`. -/
structure Sync where
  r0 : Bool
  r1 : Bool
  r2 : Bool
  deriving DecidableEq, Repr

def Sync.shift (r : Sync) (d : Bool) : Sync := ⟨d, r.r0, r.r1⟩

def Sync.all (bit : Bool) : Sync := ⟨bit, bit, bit⟩

theorem Sync.eq_all (r : Sync) (bit : Bool) : r = .all bit ↔ r.r0 = bit ∧ r.r1 = bit ∧ r.r2 = bit := by
  obtain ⟨r0, r1, r2⟩ := r
  simp [Sync.all]

/-- The inputs at an edge of clk_sys. -/
structure SysIn (n : Nat) where
  command : Option Command
  mStall : Bool
  mAck : Bool
  junk : Rec n
  deriving DecidableEq, Repr

/-- The edges of one moment; an edge of clk_ref comes with `channel_i`. -/
structure Tick (n : Nat) where
  ref : Option TChannel
  sys : Option (SysIn n)
  deriving DecidableEq, Repr

structure State (n entries : Nat) where
  wbm : Wbm n entries
  rChannel : TChannel
  rBusySync : Sync
  rValidSync : Sync

variable {n entries : Nat}

/-- `f_ceil_log2`; the recursion ends after as many rounds as the number has. -/
def fCeilLog2 (x : Nat) : Nat := go x x
where
  go : Nat → Nat → Nat
    | 0, _ => 0
    | fuel + 1, rest => if rest ≤ 1 then 0 else go fuel ((rest + 1) / 2) + 1

structure AfterReset (s : State n entries) : Prop where
  state : s.wbm.state = .idle
  busy : s.wbm.busy = false
  pulse : s.wbm.pulse = none
  rChannel : s.rChannel = .none
  rBusySync : s.rBusySync = .all false
  rValidSync : s.rValidSync = .all false

namespace State

variable (s : State n entries) (t : Tick n)

def sValid : Bool := !s.rValidSync.r2 && s.rValidSync.r1

/-- `v_macro_idx` of an action. -/
def tagIdx : Nat := s.rChannel.tag.toNat % 2 ^ fCeilLog2 entries

def action : Option Nat := if s.sValid then some s.tagIdx else none

def channelIn (c : TChannel) : TChannel :=
  if c.valid && !s.rChannel.valid then c
  else { s.rChannel with valid := s.rChannel.valid && !(s.rBusySync.r2 && !s.rBusySync.r1) }

def wbmNext : Wbm n entries :=
  match t.sys with
  | some i => s.wbm.step ⟨i.command, s.action, i.mStall, i.mAck, i.junk⟩
  | none => s.wbm

/-- `CLEAR_ALL` resets the channel side without a clock, from the edge that sets it to the one that takes it back. -/
def clears : Bool := s.wbm.clearing || (s.wbmNext t).clearing

def step : State n entries where
  wbm := s.wbmNext t
  rChannel :=
    if s.clears t then .none
    else match t.ref with
      | some c => s.channelIn c
      | none => s.rChannel
  rBusySync :=
    if s.clears t then .all false
    else if t.ref.isSome then s.rBusySync.shift s.wbm.busy else s.rBusySync
  rValidSync :=
    if s.clears t then .all false
    else if t.sys.isSome then s.rValidSync.shift s.rChannel.valid else s.rValidSync

end State

/-! ### What leads to a jam -/

/-- The state machine is idle and the two synchronisers have settled. -/
structure Settled (s : State n entries) : Prop where
  state : s.wbm.state = .idle
  busy : s.rBusySync = .all false
  valid : s.rValidSync = .all s.rChannel.valid

/-- The action in `r_channel` would be executed. -/
def Runs (s : State n entries) : Prop :=
  s.wbm.rdy = true ∧ s.wbm.enable = true ∧ ∃ m, Wbm.macroIdx s.tagIdx = some m ∧ s.wbm.free m = false

/-- The state machine goes back to `st_IDLE` with the next edge of clk_sys. -/
def Ends (s : Wbm n entries) : Prop :=
  s.rdy = true ∧ match s.state with
    | .recAddr => (∃ idx, s.pulse = some (.record idx)) ∨
        (∃ word, s.pulse = some (.recFifo word)) ∧ s.addrPoolEmpty = true
    | .txWait => s.ackerrCnt = s.opCnt ∧ s.q.hasNext = false
    | .clr => s.q.hasNext = false
    | _ => False

/-- Nothing of busy is under way to the channel side. -/
def Silent (s : State n entries) (t : Tick n) : Prop :=
  s.rBusySync = .all false ∧ (t.ref.isSome = true → s.wbm.busy = false)

/-- An action that has come through to the state machine, where busy does not show on the channel side, is executed at
that edge, or the state machine is at work and stays so. An action is not captured as long as clk_sys has not seen the
release of the last one, unless a falling edge of busy is still to come. -/
structure Releases (s : State n entries) (t : Tick n) : Prop where
  sys : s.clears t = false → t.sys.isSome = true → s.rChannel.valid = true → s.rValidSync.r0 = true →
    s.rValidSync.r1 = true → Silent s t → (s.wbm.state = .idle → Runs s) ∧ ¬ Ends s.wbm
  ref : s.clears t = false → t.sys = none → s.wbm.state = .idle → s.rChannel.valid = false →
    s.rValidSync = .all true → ∀ c, t.ref = some c → c.valid = true → s.rBusySync.r0 = true ∨ s.rBusySync.r1 = true

/-! ### One edge of the state machine -/

section Edge

variable {s : Wbm n entries} {i : WbmIn n}

theorem idle_next (clear : s.clearing = false) (idle : s.state = .idle) {idx : Nat} (action : i.action = some idx) :
    (s.step i).state = .idle ↔
      ¬ (s.rdy = true ∧ s.enable = true ∧ ∃ m, Wbm.macroIdx idx = some m ∧ s.free m = false) := by
  have state : (s.step i).state = (s.main i).state := rfl
  rw [state, Wbm.main, clear, idle]
  cases ready : s.rdy with
  | false => simp [Wbm.prepare, idle]
  | true =>
      cases enable : s.enable with
      | false => simp [Wbm.idle, action, Wbm.settle, enable, idle]
      | true =>
          cases found : (Wbm.macroIdx idx : Option (Fin entries)) with
          | none => simp [Wbm.idle, action, Wbm.settle, enable, Wbm.execute, found, idle]
          | some m => cases free : s.free m <;>
              simp [Wbm.idle, action, Wbm.settle, enable, Wbm.execute, found, free, idle]

theorem away_next (clear : s.clearing = false) (away : s.state ≠ .idle) : (s.step i).state = .idle ↔ Ends s := by
  have state : (s.step i).state = (s.main i).state := rfl
  rw [state, Wbm.main, clear, Ends]
  cases ready : s.rdy with
  | false => simp [Wbm.prepare, away]
  | true =>
      cases here : s.state with
      | idle => exact absurd here away
      | recAddr =>
          cases pulse : s.pulse with
          | none => simp [Wbm.recAddr, Wbm.settle, pulse, here]
          | some command =>
              cases command with
              | recFifo word =>
                  cases room : s.addrPoolEmpty <;>
                    simp_all [Wbm.recAddr, Wbm.settle, Wbm.addrPoolEmpty]
              | _ => simp [Wbm.recAddr, Wbm.settle, pulse, here]
      | recData =>
          simp only [Bool.false_eq_true, if_false, Bool.not_true, Wbm.recData]
          split <;> simp [Wbm.settle, here]
      | recMeta =>
          simp only [Bool.false_eq_true, if_false, Bool.not_true, Wbm.recMeta]
          split <;> simp [Wbm.settle, here]
      | tx =>
          simp only [Bool.false_eq_true, if_false, Bool.not_true, Wbm.tx]
          repeat' split
          all_goals simp [Wbm.settle, here]
      | txWait =>
          simp only [Bool.false_eq_true, if_false, Bool.not_true, Wbm.txWait]
          split
          · split <;> simp_all [Wbm.settle]
          · simp_all [Wbm.settle]
      | clr =>
          simp only [Bool.false_eq_true, if_false, Bool.not_true, Wbm.clr]
          split <;> simp_all [Wbm.settle]
      | txLoad | clrLoad => simp

theorem idle_busy (s : Wbm n entries) (action : Option Nat) (idle : (s.idle action).state = .idle) :
    (s.idle action).busy = s.busy := by
  generalize next : s.idle action = r at *
  unfold Wbm.idle Wbm.execute at next
  repeat' split at next
  all_goals
    subst next
    first | rfl | cases idle

/-- The busy bit is down in `st_IDLE`. -/
theorem busy_step (i : WbmIn n) (quiet : s.state = .idle → s.busy = false) (idle : (s.step i).state = .idle) :
    (s.step i).busy = false := by
  have busy : (s.step i).busy = (s.main i).busy := rfl
  change (s.main i).state = .idle at idle
  rw [busy]
  unfold Wbm.main at *
  split at idle
  · rw [if_pos ‹_›]
    rfl
  · rw [if_neg ‹_›]
    split at idle
    · rw [if_pos ‹_›]
      exact quiet idle
    · rw [if_neg ‹_›]
      cases state : s.state with
      | idle =>
          rw [state] at idle
          exact (idle_busy _ _ idle).trans (quiet state)
      | recAddr | recData | recMeta | tx | txWait | clr =>
          rw [state] at idle
          simp only [Wbm.recAddr, Wbm.recData, Wbm.recMeta, Wbm.tx, Wbm.txWait, Wbm.clr] at *
          repeat' split at idle
          all_goals simp_all [Wbm.settle]
      | txLoad | clrLoad =>
          rw [state] at idle
          simp at idle

end Edge

/-! ### One moment -/

section Moment

variable {s : State n entries} {t : Tick n}

def Jams (s : State n entries) : Prop := Settled s ∧ s.rChannel.valid = true

theorem jams_iff : Jams s ↔ s.wbm.state = .idle ∧ s.rBusySync = .all false ∧ s.rValidSync = .all true ∧
    s.rChannel.valid = true := by
  constructor
  · rintro ⟨⟨idle, busy, valid⟩, here⟩
    exact ⟨idle, busy, here ▸ valid, here⟩
  · rintro ⟨idle, busy, valid, here⟩
    exact ⟨⟨idle, busy, here ▸ valid⟩, here⟩

/-- An action is in front of the state machine, which is idle behind the edge. -/
theorem rests_iff (clear : s.wbm.clearing = false) (edge : t.sys.isSome = true) (through : s.rValidSync.r1 = true)
    (new : s.wbm.state = .idle → s.rValidSync.r2 = false) :
    (s.wbmNext t).state = .idle ↔ ¬ ((s.wbm.state = .idle → Runs s) ∧ ¬ Ends s.wbm) := by
  obtain ⟨i, here⟩ := Option.isSome_iff_exists.1 edge
  simp only [State.wbmNext, here]
  by_cases idle : s.wbm.state = .idle
  · have action : s.action = some s.tagIdx := by simp [State.action, State.sValid, through, new idle]
    have none : ¬ Ends s.wbm := by simp [Ends, idle]
    rw [idle_next clear idle action]
    simp only [none, not_false_eq_true, and_true, idle, true_imp_iff]
    rfl
  · rw [away_next clear idle]
    simp [idle]

theorem clears_next (s : State n entries) (clears : s.clears t = true) : ¬ Jams (s.step t) := by
  rintro ⟨-, valid⟩
  simp [State.step, clears, TChannel.none] at valid

theorem jams_sys (clears : s.clears t = false) (clear : s.wbm.clearing = false) (edge : t.sys.isSome = true)
    (free : ¬ Jams s) : Jams (s.step t) ↔ ¬ Releases s t := by
  have other : t.sys ≠ none := fun none => by rw [none] at edge; cases edge
  have valid : (s.step t).rValidSync = s.rValidSync.shift s.rChannel.valid := by simp [State.step, clears, edge]
  have state : (s.step t).wbm = s.wbmNext t := rfl
  have busy : (s.step t).rBusySync = if t.ref.isSome then s.rBusySync.shift s.wbm.busy else s.rBusySync := by
    simp [State.step, clears]
  rw [jams_iff] at free ⊢
  rw [state, valid, busy]
  constructor
  · rintro ⟨idle, low, high, kept⟩ releases
    simp only [Sync.eq_all, Sync.shift] at high
    obtain ⟨v, r0, r1⟩ := high
    have silent : Silent s t := by
      cases ref : t.ref with
      | none =>
          rw [ref] at low
          exact ⟨low, by simp [ref]⟩
      | some c =>
          simp only [ref, Option.isSome_some, if_true, Sync.eq_all, Sync.shift] at low
          have r2 : s.rBusySync.r2 = false := by
            simpa [State.step, clears, ref, State.channelIn, v, low.2.2] using kept
          exact ⟨(Sync.eq_all ..).2 ⟨low.2.1, low.2.2, r2⟩, fun _ => low.1⟩
    have new (rest : s.wbm.state = .idle) : s.rValidSync.r2 = false := by
      by_contra r2
      exact free ⟨rest, silent.1, (Sync.eq_all ..).2 ⟨r0, r1, by simpa using r2⟩, v⟩
    exact (rests_iff clear edge r1 new).1 idle (releases.sys clears edge v r0 r1 silent)
  · intro jammed
    obtain ⟨v, r0, r1, silent, rests⟩ : s.rChannel.valid = true ∧ s.rValidSync.r0 = true ∧
        s.rValidSync.r1 = true ∧ Silent s t ∧ ¬ ((s.wbm.state = .idle → Runs s) ∧ ¬ Ends s.wbm) := by
      by_contra clean
      refine jammed ⟨fun _ _ v r0 r1 silent => ?_, fun _ none => absurd none other⟩
      by_contra rests
      exact clean ⟨v, r0, r1, silent, rests⟩
    have new (rest : s.wbm.state = .idle) : s.rValidSync.r2 = false := by
      by_contra r2
      exact free ⟨rest, silent.1, (Sync.eq_all ..).2 ⟨r0, r1, by simpa using r2⟩, v⟩
    refine ⟨(rests_iff clear edge r1 new).2 rests, ?_, by simp [Sync.eq_all, Sync.shift, v, r0, r1], ?_⟩
    · cases ref : t.ref with
      | none => exact silent.1
      | some c => simp [silent.1, silent.2 (by rw [ref]; rfl), Sync.shift, Sync.all]
    · cases ref : t.ref with
      | none => simp [State.step, clears, ref, v]
      | some c => simp [State.step, clears, ref, State.channelIn, v, silent.1, Sync.all]

theorem jams_ref (clears : s.clears t = false) (none : t.sys = none) (quiet : s.wbm.state = .idle → s.wbm.busy = false)
    (free : ¬ Jams s) : Jams (s.step t) ↔ ¬ Releases s t := by
  have state : (s.step t).wbm = s.wbm := by simp [State.step, State.wbmNext, none]
  have valid : (s.step t).rValidSync = s.rValidSync := by simp [State.step, clears, none]
  rw [jams_iff] at free ⊢
  rw [state, valid]
  constructor
  · rintro ⟨idle, low, high, kept⟩ releases
    cases ref : t.ref with
    | none =>
        refine free ⟨idle, ?_, high, ?_⟩
        · simpa [State.step, clears, ref] using low
        · simpa [State.step, clears, ref] using kept
    | some c =>
        simp only [State.step, clears, ref, Option.isSome_some, if_true, Bool.false_eq_true, if_false, Sync.eq_all,
          Sync.shift] at low
        cases v : s.rChannel.valid with
        | false =>
            have new : c.valid = true := by
              by_contra off
              simp [State.step, clears, ref, State.channelIn, v, off] at kept
            have waits := releases.ref clears none idle v high c ref new
            simp [low] at waits
        | true =>
            have r2 : s.rBusySync.r2 = false := by
              simpa [State.step, clears, ref, State.channelIn, v, low.2.2] using kept
            exact free ⟨idle, (Sync.eq_all ..).2 ⟨low.2.1, low.2.2, r2⟩, high, v⟩
  · intro jammed
    obtain ⟨idle, v, high, c, ref, new, r0, r1⟩ : s.wbm.state = .idle ∧ s.rChannel.valid = false ∧
        s.rValidSync = .all true ∧ ∃ c, t.ref = some c ∧ c.valid = true ∧ s.rBusySync.r0 = false ∧
          s.rBusySync.r1 = false := by
      by_contra held
      refine jammed ⟨fun _ some => by simp [none] at some, fun _ _ idle v high c ref new => ?_⟩
      by_contra waits
      rw [not_or, Bool.not_eq_true, Bool.not_eq_true] at waits
      exact held ⟨idle, v, high, c, ref, new, waits⟩
    refine ⟨idle, ?_, high, ?_⟩
    · simp [State.step, clears, ref, Sync.eq_all, Sync.shift, r0, r1, quiet idle]
    · simp [State.step, clears, ref, State.channelIn, v, new]

/-- A moment that leads into a jam. -/
theorem jams_next (quiet : s.wbm.state = .idle → s.wbm.busy = false) (free : ¬ Jams s) :
    Jams (s.step t) ↔ ¬ Releases s t := by
  cases clears : s.clears t with
  | true =>
      refine iff_of_false (clears_next s clears) (not_not.2 ⟨?_, ?_⟩) <;> simp [clears]
  | false =>
      have clear : s.wbm.clearing = false := by
        rw [State.clears, Bool.or_eq_false_iff] at clears
        exact clears.1
      cases sys : t.sys with
      | some i => exact jams_sys clears clear (by rw [sys]; rfl) free
      | none => exact jams_ref clears sys quiet free

end Moment

/-! ### Runs -/

section Runs

variable (s : State n entries) (t : Nat → Tick n)

def stateAt (u : Nat) : State n entries := run State.step s (upTo t u)

variable {s t}

theorem stateAt_succ (u : Nat) : stateAt s t (u + 1) = (stateAt s t u).step (t u) := by
  rw [stateAt, upTo_snoc, run_append]
  rfl

theorem busy_run (reset : AfterReset s) (u : Nat) (idle : (stateAt s t u).wbm.state = .idle) :
    (stateAt s t u).wbm.busy = false := by
  induction u with
  | zero => exact reset.busy
  | succ u ih =>
      rw [stateAt_succ] at idle ⊢
      simp only [State.step, State.wbmNext] at idle ⊢
      cases sys : (t u).sys with
      | none =>
          rw [sys] at idle
          exact ih idle
      | some i =>
          rw [sys] at idle
          exact busy_step _ ih idle

/-- How an action that was captured in a settled state goes on, with `k` edges of clk_sys behind it. -/
structure Passes (s : State n entries) (c : TChannel) (k : Nat) : Prop where
  channel : s.rChannel = c
  valid : c.valid = true
  busy : s.rBusySync = .all false
  through : s.rValidSync = ⟨decide (1 ≤ k), decide (2 ≤ k), decide (3 ≤ k)⟩

/-- The next action is captured. -/
theorem captured {s : State n entries} {t : Tick n} (settled : Settled s) (free : s.rChannel.valid = false)
    (quiet : s.wbm.busy = false) {c : TChannel} (edge : t.ref = some c) (action : c.valid = true)
    (clears : s.clears t = false) : Passes (s.step t) c 0 := by
  refine ⟨?_, action, ?_, ?_⟩
  · simp [State.step, clears, edge, State.channelIn, action, free]
  · simp [State.step, clears, edge, settled.busy, quiet, Sync.shift, Sync.all]
  · cases sys : t.sys <;> simp [State.step, clears, sys, settled.valid, free, Sync.shift, Sync.all]

theorem passes_step {s : State n entries} {t : Tick n} {c : TChannel} {k : Nat} (passes : Passes s c k)
    (quiet : s.wbm.busy = false) (clears : s.clears t = false) :
    Passes (s.step t) c (if t.sys.isSome then k + 1 else k) := by
  obtain ⟨channel, valid, busy, through⟩ := passes
  refine ⟨?_, valid, ?_, ?_⟩
  · cases ref : t.ref with
    | none => simp [State.step, clears, ref, channel]
    | some other =>
        have same : { c with valid := true } = c := by rw [← valid]
        simp [State.step, clears, ref, State.channelIn, channel, valid, busy, Sync.all, same]
  · cases ref : t.ref <;> simp [State.step, clears, ref, busy, quiet, Sync.shift, Sync.all]
  · cases sys : t.sys with
    | none => simp [State.step, clears, sys, through]
    | some i => simp [State.step, clears, sys, through, Sync.shift, channel, valid]

/-- Two edges of clk_sys later it is in front of the state machine. -/
theorem passes_runs {s : State n entries} {t : Tick n} {c : TChannel} (passes : Passes s c 2)
    (edge : t.sys.isSome = true) (clear : s.wbm.clearing = false) (idle : s.wbm.state = .idle) (runs : Runs s) :
    ∃ m : Fin entries, Wbm.macroIdx (c.tag.toNat % 2 ^ fCeilLog2 entries) = some m ∧
      (s.step t).wbm.state = .txLoad ∧ (s.step t).wbm.ramA = s.wbm.ptr m := by
  obtain ⟨ready, enable, m, found, taken⟩ := runs
  obtain ⟨i, here⟩ := Option.isSome_iff_exists.1 edge
  have action : s.action = some s.tagIdx := by simp [State.action, State.sValid, passes.through]
  refine ⟨m, by rw [← passes.channel]; exact found, ?_⟩
  have main : (s.step t).wbm.state = .txLoad ∧ (s.step t).wbm.ramA = s.wbm.ptr m := by
    simp [State.step, State.wbmNext, here, Wbm.step, Wbm.main, clear, ready, idle, Wbm.idle, action, Wbm.settle,
      enable, Wbm.execute, found, taken]
  exact main

/-- From a settled state with `r_channel` free the next action is captured, and executed at the third edge of clk_sys
behind that if it can be and the state machine is still idle. -/
def NextRuns (s : State n entries) (t : Nat → Tick n) : Prop :=
  ∀ u w c, Settled (stateAt s t u) → (stateAt s t u).rChannel.valid = false → (t u).ref = some c → c.valid = true →
    u < w → (∀ x, u ≤ x → x ≤ w → (stateAt s t x).wbm.state = .idle ∧ (stateAt s t x).clears (t x) = false) →
    Nat.count (fun x => (t x).sys.isSome) w = Nat.count (fun x => (t x).sys.isSome) (u + 1) + 2 →
    (t w).sys.isSome = true → Runs (stateAt s t w) →
    ∃ m : Fin entries, Wbm.macroIdx (c.tag.toNat % 2 ^ fCeilLog2 entries) = some m ∧
      (stateAt s t (w + 1)).wbm.state = .txLoad ∧ (stateAt s t (w + 1)).wbm.ramA = (stateAt s t w).wbm.ptr m

theorem next_runs (reset : AfterReset s) : NextRuns s t := by
  intro u w c settled free edge action later rests count due runs
  have passes : ∀ x, u < x → x ≤ w → ∃ k, Passes (stateAt s t x) c k ∧
      Nat.count (fun x => (t x).sys.isSome) x = Nat.count (fun x => (t x).sys.isSome) (u + 1) + k := by
    intro x behind
    induction x, behind using Nat.le_induction with
    | base =>
        intro _
        rw [stateAt_succ]
        have here := rests u le_rfl later.le
        exact ⟨0, captured settled free (busy_run reset u here.1) edge action here.2, rfl⟩
    | succ x behind ih =>
        intro before
        obtain ⟨k, passes, number⟩ := ih (by omega)
        have here := rests x (by omega) (by omega)
        rw [stateAt_succ]
        refine ⟨_, passes_step passes (busy_run reset x here.1) here.2, ?_⟩
        rw [Nat.count_succ, number]
        split <;> omega
  obtain ⟨k, here, number⟩ := passes w later le_rfl
  obtain rfl : k = 2 := by omega
  have clear := (rests w later.le le_rfl).2
  rw [State.clears, Bool.or_eq_false_iff] at clear
  rw [stateAt_succ]
  exact passes_runs here due clear.1 (rests w later.le le_rfl).1 runs

/-- The channel input is free in every settled state if and only if no moment leads into a jam. -/
theorem released_iff (reset : AfterReset s) :
    ((∀ u, Settled (stateAt s t u) → (stateAt s t u).rChannel.valid = false) ↔
      ∀ u, Releases (stateAt s t u) (t u)) ∧ NextRuns s t := by
  refine ⟨⟨fun free u => ?_, fun releases u settled => ?_⟩, next_runs reset⟩
  · have clean (u : Nat) : ¬ Jams (stateAt s t u) := fun jams => by
      have low := free u jams.1
      rw [jams.2] at low
      cases low
    have next := clean (u + 1)
    rw [stateAt_succ] at next
    exact not_not.1 fun jams => next ((jams_next (busy_run reset u) (clean u)).2 jams)
  · have clean : ¬ Jams (stateAt s t u) := by
      clear settled
      induction u with
      | zero =>
          rintro ⟨-, valid⟩
          have off : (stateAt s t 0).rChannel.valid = false := congrArg TChannel.valid reset.rChannel
          rw [off] at valid
          cases valid
      | succ u ih =>
          rw [stateAt_succ]
          exact fun jams => (jams_next (busy_run reset u) ih).1 jams (releases u)
    exact Bool.eq_false_iff.2 fun valid => clean ⟨settled, valid⟩

end Runs

/-! ### An action while execution is off -/

def blank : State 0 1 where
  wbm := ⟨false, none, false, true, false, false, false, 0, 0, 0, 2, false, false, false, false, 0, 0, false,
    BitVec.allOnes 1, false, fun _ => true, fun _ => 0, 0, ⟨false, 0, false, 0, 0, 0, 0⟩, .idle, [],
    fun _ => ⟨false, 0, false, 0, 0, 0, 0⟩, ⟨false, 0, false, 0, 0, 0, 0⟩⟩
  rChannel := .none
  rBusySync := .all false
  rValidSync := .all false

theorem blank_reset : AfterReset blank := ⟨rfl, rfl, rfl, rfl, rfl, rfl⟩

/-- One edge of clk_ref with an action, when the memory is prepared; all other edges are of clk_sys. -/
def disabled (u : Nat) : Tick 0 :=
  if u = 4 then ⟨some { TChannel.none with valid := true }, none⟩
  else ⟨none, some ⟨none, false, false, ⟨false, 0, false, 0, 0, 0, 0⟩⟩⟩

theorem disabled_jams : AfterReset blank ∧ Settled (stateAt blank disabled 8) ∧
    (stateAt blank disabled 8).wbm.rdy = true ∧ (stateAt blank disabled 8).rChannel.valid = true :=
  ⟨blank_reset, ⟨by decide, by decide, by decide⟩, by decide, by decide⟩

theorem disabled_released :
    ((∀ u, Settled (stateAt blank disabled u) → (stateAt blank disabled u).rChannel.valid = false) ↔
      ∀ u, Releases (stateAt blank disabled u) (disabled u)) ∧ NextRuns blank disabled :=
  released_iff blank_reset

end WrCores.Eca.WbmChannel
