import WrCores.Fabric.Mux

/-!
The multiplexer of xwrf_mux.vhd, from `n` fabric masters to the endpoint: `p_mux` after reset and the connections
around it. `turns` are the cycles of MUX_SEL with a port at the pointer, and what comes of them.
-/

namespace WrCores.Fabric.MuxMasters

open Clocked Mux

variable {n : Nat} [NeZero n]

inductive MuxFsm where
  | muxSel
  | muxTransfer
  deriving DecidableEq, Repr

structure MuxState (n : Nat) where
  mux : MuxFsm
  muxRrobin : Fin n → Bool
  muxSelect : Fin n → Bool

structure MuxIn (n : Nat) where
  muxSnkI : Fin n → SourceOut
  epSrcI : SourceIn

/-- `mux_select` has no reset. -/
structure AfterReset (s : MuxState n) : Prop where
  mux : s.mux = .muxSel
  muxRrobin : s.muxRrobin = fun i => decide (i = 0)

/-- `mux_rrobin(0) & mux_rrobin(g_muxed_ports-1 downto 1)`. -/
def rotate (x : Fin n → Bool) : Fin n → Bool := fun i => if h : i.val + 1 < n then x ⟨i.val + 1, h⟩ else x 0

def asks (i : MuxIn n) (port : Fin n) : Bool := (i.muxSnkI port).cyc

def step (s : MuxState n) (i : MuxIn n) : MuxState n :=
  match s.mux with
  | .muxSel =>
      if anySet fun j => asks i j && s.muxRrobin j then
        { s with muxSelect := fun j => asks i j && s.muxRrobin j, mux := .muxTransfer }
      else { s with muxSelect := none n, muxRrobin := rotate s.muxRrobin }
  | .muxTransfer =>
      if anySet fun j => asks i j && s.muxSelect j then s
      else { s with muxRrobin := rotate s.muxRrobin, mux := .muxSel }

def connected (s : MuxState n) (port : Fin n) : Bool := s.mux != .muxSel && s.muxSelect port

def muxSnkO (s : MuxState n) (i : MuxIn n) (port : Fin n) : SourceIn where
  ack := if connected s port then i.epSrcI.ack else false
  stall := if connected s port then i.epSrcI.stall else true
  err := if connected s port then i.epSrcI.err else false
  rty := false

def epSrcO (s : MuxState n) (i : MuxIn n) : SourceOut :=
  let chosen := i.muxSnkI (fHotToBin s.muxSelect)
  { cyc := s.mux != .muxSel && chosen.cyc
    stb := s.mux != .muxSel && chosen.stb
    adr := chosen.adr
    dat := chosen.dat
    sel := chosen.sel
    we := true }

/-- The port whose turn it is in MUX_SEL, and whether it is granted. -/
def turns (s : MuxState n) (i : MuxIn n) : List (Fin n × Bool) :=
  if s.mux = .muxSel then ((List.finRange n).filter s.muxRrobin).map fun port => (port, asks i port) else []

/-! ### One port at a time -/

/-- The pointer stands at `k`, and only the port there can be connected. -/
structure At (k : Fin n) (s : MuxState n) : Prop where
  rrobin : ∀ j, s.muxRrobin j = decide (j = k)
  select : s.mux = .muxTransfer → ∀ j, s.muxSelect j = decide (j = k)

/-- Where the pointer goes from `k`. -/
def before (k : Fin n) : Fin n :=
  ⟨if k.val = 0 then n - 1 else k.val - 1, by
    have bound := k.isLt
    split <;> omega⟩

theorem rotate_at (k : Fin n) (x : Fin n → Bool) (hot : ∀ j, x j = decide (j = k)) (j : Fin n) :
    rotate x j = decide (j = before k) := by
  have bound := j.isLt
  have bound' := k.isLt
  rw [rotate]
  split
  · rename_i inside
    rw [hot, decide_eq_decide, Fin.ext_iff, Fin.ext_iff, before]
    simp only
    split <;> omega
  · rw [hot, decide_eq_decide, Fin.ext_iff, Fin.ext_iff, before]
    simp only [Fin.val_zero]
    split <;> omega

omit [NeZero n] in
theorem At.asked {k : Fin n} (i : MuxIn n) (x : Fin n → Bool) (hot : ∀ j, x j = decide (j = k)) :
    (anySet fun j => asks i j && x j) = asks i k := by
  cases asked : asks i k with
  | true => exact (anySet_iff _).mpr ⟨k, by simp [asked, hot]⟩
  | false =>
      rw [anySet, List.any_eq_false]
      intro j _
      by_cases same : j = k
      · simp [same, asked]
      · simp [hot, same]

theorem At.fHotToBin {k : Fin n} (x : Fin n → Bool) (hot : ∀ j, x j = decide (j = k)) : fHotToBin x = k :=
  fHotToBin_lowest x k (by simp [hot]) fun j below => by simp [hot, below.ne]

variable {s : MuxState n} {k : Fin n}

omit [NeZero n] in
theorem At.unique {k' : Fin n} (here : At k s) (there : At k' s) : k = k' := by
  have hot := here.rrobin k'
  rw [there.rrobin k'] at hot
  simpa [eq_comm] using hot

/-- What the four kinds of cycle do. -/
theorem At.cases (here : At k s) (i : MuxIn n) :
    (s.mux = .muxSel ∧ asks i k = true ∧ (step s i).mux = .muxTransfer ∧ At k (step s i)) ∨
    (s.mux = .muxSel ∧ asks i k = false ∧ (step s i).mux = .muxSel ∧ At (before k) (step s i)) ∨
    (s.mux = .muxTransfer ∧ asks i k = true ∧ (step s i).mux = .muxTransfer ∧ At k (step s i)) ∨
    (s.mux = .muxTransfer ∧ asks i k = false ∧ (step s i).mux = .muxSel ∧ At (before k) (step s i)) := by
  cases mux : s.mux with
  | muxSel =>
      have any := At.asked i s.muxRrobin here.rrobin
      cases asked : asks i k with
      | true =>
          left
          rw [asked] at any
          have next : step s i = { s with muxSelect := fun j => asks i j && s.muxRrobin j, mux := .muxTransfer } := by
            simp [step, mux, any]
          rw [next]
          refine ⟨rfl, rfl, rfl, here.rrobin, ?_⟩
          intro _ j
          by_cases same : j = k
          · simp [here.rrobin, same, asked]
          · simp [here.rrobin, same]
      | false =>
          right; left
          rw [asked] at any
          have next : step s i = { s with muxSelect := none n, muxRrobin := rotate s.muxRrobin } := by
            simp [step, mux, any]
          rw [next]
          exact ⟨rfl, rfl, mux, rotate_at k _ here.rrobin, fun moved => by simp [mux] at moved⟩
  | muxTransfer =>
      have any := At.asked i s.muxSelect (here.select mux)
      cases asked : asks i k with
      | true =>
          right; right; left
          rw [asked] at any
          have next : step s i = s := by simp [step, mux, any]
          rw [next]
          exact ⟨rfl, rfl, mux, here⟩
      | false =>
          right; right; right
          rw [asked] at any
          have next : step s i = { s with muxRrobin := rotate s.muxRrobin, mux := .muxSel } := by
            simp [step, mux, any]
          rw [next]
          exact ⟨rfl, rfl, rfl, rotate_at k _ here.rrobin, fun moved => by simp at moved⟩

theorem At.next (here : At k s) (i : MuxIn n) : ∃ k', At k' (step s i) := by
  rcases here.cases i with ⟨-, -, -, next⟩ | ⟨-, -, -, next⟩ | ⟨-, -, -, next⟩ | ⟨-, -, -, next⟩
  · exact ⟨k, next⟩
  · exact ⟨before k, next⟩
  · exact ⟨k, next⟩
  · exact ⟨before k, next⟩

theorem At.after {s : MuxState n} {k : Fin n} (here : At k s) (cycles : List (MuxIn n)) :
    ∃ k', At k' (run step s cycles) := by
  induction cycles generalizing s k with
  | nil => exact ⟨k, here⟩
  | cons i rest ih =>
      obtain ⟨k', next⟩ := here.next i
      exact ih next

theorem At.reset (reset : AfterReset s) : At 0 s where
  rrobin j := by rw [reset.muxRrobin]
  select moved := by simp [reset.mux] at moved

omit [NeZero n] in
theorem At.connected_eq (here : At k s) (port : Fin n) :
    connected s port = (decide (s.mux = .muxTransfer) && decide (port = k)) := by
  cases mux : s.mux with
  | muxSel => simp [connected, mux]
  | muxTransfer => simp [connected, mux, here.select mux]

theorem At.epSrcO_eq (here : At k s) (i : MuxIn n) (running : (epSrcO s i).cyc = true) :
    s.mux = .muxTransfer ∧ epSrcO s i = { i.muxSnkI k with we := true } := by
  cases mux : s.mux with
  | muxSel => simp [epSrcO, mux] at running
  | muxTransfer =>
      refine ⟨rfl, ?_⟩
      simp [epSrcO, mux, At.fHotToBin s.muxSelect (here.select mux)]

omit [NeZero n] in
theorem At.turns_eq (here : At k s) (i : MuxIn n) :
    turns s i = if s.mux = .muxSel then [(k, asks i k)] else [] := by
  have only : (List.finRange n).filter s.muxRrobin = [k] := by
    have hot : s.muxRrobin = fun j => decide (j = k) := funext here.rrobin
    rw [hot, List.filter_eq, List.count_eq_one_of_mem (List.nodup_finRange n) (List.mem_finRange k)]
    rfl
  simp [turns, only]

/-- What holds of the connections in a state. -/
structure Arbitrated (s : MuxState n) : Prop where
  oneHot : ∃ k, ∀ j, s.muxRrobin j = decide (j = k)
  single : ∀ p q, connected s p = true → connected s q = true → p = q
  keeps : ∀ p i, connected s p = true → asks i p = true → connected (step s i) p = true
  leaves : ∀ p i, connected s p = true → asks i p = false → ∀ q, connected (step s i) q = false
  own : ∀ p i, connected s p = true →
    muxSnkO s i p = { i.epSrcI with rty := false } ∧ epSrcO s i = { i.muxSnkI p with we := true }
  others : ∀ p i, connected s p = false → (muxSnkO s i p).stall = true ∧ (muxSnkO s i p).ack = false
  idle : ∀ i, (∀ p, connected s p = false) → (epSrcO s i).cyc = false ∧ (epSrcO s i).stb = false
  granted : ∀ p i, (p, true) ∈ turns s i ↔ connected s p = false ∧ connected (step s i) p = true
  whole : ∀ i i', (epSrcO s i).cyc = true → (epSrcO (step s i) i').cyc = true →
    ∃ p, connected s p = true ∧ connected (step s i) p = true

theorem At.arbitrated (here : At k s) : Arbitrated s := by
  have stays : ∀ i, s.mux = .muxTransfer → asks i k = true →
      (step s i).mux = .muxTransfer ∧ At k (step s i) := by
    intro i mux asked
    rcases here.cases i with ⟨sel, -⟩ | ⟨-, other, -⟩ | ⟨-, -, next⟩ | ⟨-, other, -⟩
    · simp [mux] at sel
    · simp [asked] at other
    · exact next
    · simp [asked] at other
  constructor
  · exact ⟨k, here.rrobin⟩
  · intro p q first second
    rw [here.connected_eq] at first second
    simp only [Bool.and_eq_true, decide_eq_true_iff] at first second
    rw [first.2, second.2]
  · intro p i granted asked
    rw [here.connected_eq] at granted
    simp only [Bool.and_eq_true, decide_eq_true_iff] at granted
    obtain ⟨mux, rfl⟩ := granted
    obtain ⟨moves, next⟩ := stays i mux asked
    simp [next.connected_eq, moves]
  · intro p i granted lowered q
    rw [here.connected_eq] at granted
    simp only [Bool.and_eq_true, decide_eq_true_iff] at granted
    obtain ⟨mux, rfl⟩ := granted
    rcases here.cases i with ⟨sel, -⟩ | ⟨sel, -⟩ | ⟨-, asked, -⟩ | ⟨-, -, ends, next⟩
    · simp [mux] at sel
    · simp [mux] at sel
    · simp [lowered] at asked
    · simp [next.connected_eq, ends]
  · intro p i granted
    have held := granted
    rw [here.connected_eq] at granted
    simp only [Bool.and_eq_true, decide_eq_true_iff] at granted
    obtain ⟨mux, rfl⟩ := granted
    refine ⟨by simp [muxSnkO, held], ?_⟩
    simp [epSrcO, mux, At.fHotToBin s.muxSelect (here.select mux)]
  · intro p i other
    simp [muxSnkO, other]
  · intro i none
    have mux : s.mux = .muxSel := by
      cases mux : s.mux with
      | muxSel => rfl
      | muxTransfer =>
          have own := none k
          simp [here.connected_eq, mux] at own
    simp [epSrcO, mux]
  · intro p i
    rw [here.turns_eq i, here.connected_eq]
    rcases here.cases i with ⟨mux, asked, mux', next⟩ | ⟨mux, asked, mux', next⟩ | ⟨mux, asked, mux', next⟩ |
      ⟨mux, asked, mux', next⟩
    all_goals simp [mux, mux', asked, next.connected_eq]
  · intro i i' running running'
    obtain ⟨mux, out⟩ := here.epSrcO_eq i running
    have asked : asks i k = true := by
      rw [out] at running
      exact running
    obtain ⟨moves, next⟩ := stays i mux asked
    exact ⟨k, by simp [here.connected_eq, mux], by simp [next.connected_eq, moves]⟩

/-! ### Every port in its turn -/

/-- The port that has the next turn; a connected one has had its own. -/
def upNext (s : MuxState n) (k : Fin n) : Fin n := if s.mux = .muxTransfer then before k else k

/-- How many turns there are from `u` until it is that of `p`. -/
def turnsUntil (p u : Fin n) : Nat := if p.val ≤ u.val then u.val - p.val else n + u.val - p.val

/-- Since the last turn of `p`, whether `q` has had its own. -/
def had (p q u : Fin n) : Nat := if turnsUntil p u < turnsUntil p q then 1 else 0

omit [NeZero n] in
theorem turns_bound (p u : Fin n) : turnsUntil p u < n := by
  have bound := p.isLt
  have bound' := u.isLt
  rw [turnsUntil]
  split <;> omega

omit [NeZero n] in
theorem turns_inj {p q u : Fin n} : turnsUntil p u = turnsUntil p q ↔ u = q := by
  have bound := p.isLt
  have bound' := q.isLt
  have bound'' := u.isLt
  rw [turnsUntil, turnsUntil, Fin.ext_iff]
  split <;> split <;> omega

omit [NeZero n] in
theorem turns_self (p : Fin n) : turnsUntil p p = 0 := by simp [turnsUntil]

omit [NeZero n] in
theorem turns_pos {p u : Fin n} (other : u ≠ p) : 0 < turnsUntil p u := by
  have moved : turnsUntil p u ≠ turnsUntil p p := fun same => other (turns_inj.1 same)
  rw [turns_self] at moved
  exact Nat.pos_of_ne_zero moved

omit [NeZero n] in
/-- A turn later there is one less to wait, or all the others. -/
theorem turns_before (p u : Fin n) :
    turnsUntil p (before u) = if u = p then n - 1 else turnsUntil p u - 1 := by
  have bound := p.isLt
  have bound' := u.isLt
  simp only [turnsUntil, before, Fin.ext_iff]
  by_cases first : u.val = 0
  · simp only [if_pos first]
    split_ifs <;> omega
  · simp only [if_neg first]
    split_ifs <;> omega

omit [NeZero n] in
theorem had_turn {p q : Fin n} (different : q ≠ p) (u : Fin n) :
    (if u = q then 1 else 0) + had p q u = (if u = p then 1 else 0) + had p q (before u) := by
  have waits := turns_pos different
  have bound := turns_bound p q
  have inj := turns_inj (p := p) (q := q) (u := u)
  rw [had, had, turns_before]
  by_cases own : u = p
  · have other : u ≠ q := fun same => different (same.symm.trans own)
    rw [if_pos own, if_neg other, if_pos own, own, turns_self, if_pos waits, if_neg (by omega)]
  · have mine := turns_pos own
    simp only [if_neg own]
    split_ifs <;> omega

/-- The turns of `port` among some. -/
def turnsOf (port : Fin n) (l : List (Fin n × Bool)) : Nat := l.countP fun turn => turn.1 = port

/-- In a round every port has its turn once. -/
theorem At.rounds {p q : Fin n} (different : q ≠ p) {s : MuxState n} {k : Fin n} (here : At k s)
    (cycles : List (MuxIn n)) : ∃ k', At k' (run step s cycles) ∧
      turnsOf q (collect step turns s cycles) + had p q (upNext s k) =
        turnsOf p (collect step turns s cycles) + had p q (upNext (run step s cycles) k') := by
  induction cycles generalizing s k with
  | nil => exact ⟨k, here, rfl⟩
  | cons i rest ih =>
      have shown := here.turns_eq i
      rcases here.cases i with ⟨mux, asked, mux', next⟩ | ⟨mux, asked, mux', next⟩ | ⟨mux, asked, mux', next⟩ |
        ⟨mux, asked, mux', next⟩
      all_goals
        obtain ⟨k', there, balance⟩ := ih next
        refine ⟨k', there, ?_⟩
        rw [collect_cons, shown, mux, run_cons]
        generalize upNext (run step (step s i) rest) k' = final at *
      · have turn := had_turn different k
        rw [upNext, mux'] at balance
        rw [upNext, mux]
        simp [turnsOf, List.countP_cons] at balance ⊢
        omega
      · have turn := had_turn different k
        rw [upNext, mux'] at balance
        rw [upNext, mux]
        simp [turnsOf, List.countP_cons] at balance ⊢
        omega
      · rw [upNext, mux'] at balance
        rw [upNext, mux]
        simpa using balance
      · rw [upNext, mux'] at balance
        rw [upNext, mux]
        simpa using balance

omit [NeZero n] in
theorem count_asked (q : Fin n) (l : List (Fin n × Bool)) (asked : (q, false) ∉ l) :
    l.count (q, true) = turnsOf q l := by
  rw [turnsOf, List.count]
  apply List.countP_congr
  rintro ⟨port, ask⟩ inside
  cases ask with
  | true => simp
  | false =>
      have other : port ≠ q := fun same => asked (same ▸ inside)
      simp [other]

/-- In every state one port at most has the endpoint, and keeps it until it lowers `cyc`. From one grant of a
port to another one of it, a port that asks in each of its turns is granted once, and once more for each turn
that the first port has in between, as it has where it does not ask. -/
theorem masters_arbitrated (s : MuxState n) (reset : AfterReset s) (cycles : List (MuxIn n)) :
    Arbitrated (run step s cycles) ∧
    ∀ (p q : Fin n) (first : MuxIn n) (between : List (MuxIn n)) (second : MuxIn n), q ≠ p →
      (p, true) ∈ turns (run step s cycles) first →
      (p, true) ∈ turns (run step (step (run step s cycles) first) between) second →
      (q, false) ∉ collect step turns (step (run step s cycles) first) between →
      (collect step turns (step (run step s cycles) first) between).count (q, true) =
        1 + turnsOf p (collect step turns (step (run step s cycles) first) between) := by
  obtain ⟨k, here⟩ := (At.reset reset).after cycles
  refine ⟨here.arbitrated, ?_⟩
  generalize run step s cycles = t at here
  intro p q first between second different granted again asked
  have bound := p.isLt
  have bound' := q.isLt
  have apart : q.val ≠ p.val := fun same => different (Fin.ext same)
  rw [here.turns_eq first] at granted
  rcases here.cases first with ⟨mux, -, mux', next⟩ | ⟨mux, low, -⟩ | ⟨mux, -⟩ | ⟨mux, -⟩
  · rw [mux] at granted
    simp only [if_true, List.mem_singleton, Prod.mk.injEq] at granted
    obtain ⟨rfl, -⟩ := granted
    obtain ⟨k', there, balance⟩ := next.rounds different between
    rw [there.turns_eq second] at again
    rw [count_asked q _ asked]
    -- the second grant is a turn of `p` again, so that `q` has had its own
    by_cases turn : (run step (step t first) between).mux = .muxSel
    · rw [if_pos turn, List.mem_singleton, Prod.mk.injEq] at again
      obtain ⟨rfl, -⟩ := again
      have starts : had p q (upNext (step t first) p) = 0 := by
        have bound := turns_bound p q
        rw [upNext, mux', if_pos rfl, had, turns_before, if_pos rfl, if_neg (by omega)]
      have ends : had p q (upNext (run step (step t first) between) p) = 1 := by
        rw [upNext, turn, if_neg (by decide), had, turns_self, if_pos (turns_pos different)]
      omega
    · rw [if_neg turn] at again
      simp at again
  · simp [mux, low] at granted
  · simp [mux] at granted
  · simp [mux] at granted

local instance threePorts : NeZero 3 := ⟨by decide⟩

def resetState : MuxState 3 := ⟨.muxSel, fun i => decide (i = 0), none 3⟩

def asking (ports : List (Fin 3)) : MuxIn 3 where
  muxSnkI port := ⟨0, 0, ports.contains port, ports.contains port, true, 3⟩
  epSrcI := ⟨false, false, false, false⟩

/-- The first port is granted twice, the third one in between; the second one does not ask. -/
theorem masters_arbitrated_three :
    Arbitrated (run step resetState [asking [0, 2]]) ∧
    (collect step turns (step resetState (asking [0, 2])) [asking [2], asking [0, 2], asking [0], asking [0]]).count
      (2, true) = 1 := by
  have whole := masters_arbitrated resetState ⟨rfl, rfl⟩
  refine ⟨(whole [asking [0, 2]]).1, ?_⟩
  exact (whole []).2 0 2 (asking [0, 2]) [asking [2], asking [0, 2], asking [0], asking [0]] (asking [0])
    (by decide) (by decide) (by decide) (by decide)

end WrCores.Fabric.MuxMasters
