import WrCores.Samples.Stretches
import WrCores.Timing.DmtdWithDeglitcher

/-!
The tags of dmtd_with_deglitcher.vhd are bit medians. The places are those of the enabled samples since the restart, which
`free_cntr` counts. A window opens with the first 1 behind `threshold + 1` samples that begin with `threshold` zeros, and
closes with `threshold` ones in a row; the detector looks for the next one behind the sample that closed it.
-/

namespace WrCores.Timing.Deglitcher

open Clocked Samples

section Windows

variable (x : Nat → Bool) (len : Nat)

/-- The first 1 from which the window counts, looked for from `n` on. The sample behind the zeros may be anything. -/
def Opens (n a : Nat) : Prop :=
  ∃ z, First x false len n z ∧ z + len + 1 ≤ a ∧ Flat x false (z + len + 1) a ∧ x a = true

def Closes (a b : Nat) : Prop := ∃ z, First x true len (a + 1) z ∧ b = z + len

/-- The windows one behind the other, and where the next is looked for. -/
inductive Windows : List (Nat × Nat) → Nat → Prop
  | nil : Windows [] 0
  | snoc {ws : List (Nat × Nat)} {n a b : Nat} : Windows ws n → Opens x len n a → Closes x len a b →
      Windows (ws ++ [(a, b)]) (b + 1)

/-- An edge without glitches. -/
structure Clean (e : Nat) : Prop where
  room : len + 2 ≤ e
  zeros : Flat x false (e - (len + 2)) e
  ones : Flat x true e (e + len + 1)

end Windows

variable {x : Nat → Bool} {len n a b e p : Nat} {ws : List (Nat × Nat)}

theorem Opens.unique {c : Nat} (one : Opens x len n a) (other : Opens x len n c) : c = a := by
  obtain ⟨z, first, behind, zeros, here⟩ := one
  obtain ⟨y, first', behind', zeros', here'⟩ := other
  obtain rfl := first.unique first'
  rcases Nat.lt_trichotomy c a with less | same | more
  · exact absurd (zeros c behind' less) (by simp [here'])
  · exact same
  · exact absurd (zeros' a behind more) (by simp [here])

theorem Closes.unique {c : Nat} (one : Closes x len a b) (other : Closes x len a c) : c = b := by
  obtain ⟨z, first, rfl⟩ := one
  obtain ⟨y, first', rfl⟩ := other
  rw [first.unique first']

theorem Closes.behind (closes : Closes x len a b) : a + 1 + len ≤ b := by
  obtain ⟨z, first, rfl⟩ := closes
  have behind := first.behind
  omega

/-! ### Clean edges -/

/-- Behind a window comes a 1 and the sample that closed it. -/
theorem Windows.look (windows : Windows x len ws n) : n = 0 ∨ 2 ≤ n ∧ x (n - 2) = true := by
  cases windows with
  | nil => exact .inl rfl
  | @snoc _ _ a b earlier opens closes =>
      have behind := closes.behind
      refine .inr ⟨by omega, ?_⟩
      obtain ⟨z, first, rfl⟩ := closes
      obtain ⟨-, -, -, -, one⟩ := opens
      have after := first.behind
      rcases Nat.eq_zero_or_pos len with rfl | some
      · have next : ¬ a + 1 < z := fun later => first.least (a + 1) le_rfl later flat_self
        rwa [show z + 0 + 1 - 2 = a by omega]
      · exact first.flat _ (by omega) (by omega)

theorem Clean.opens (clean : Clean x len e) (windows : Windows x len ws n) (behind : n ≤ e) :
    ∃ a ≤ e, Opens x len n a := by
  have room := clean.room
  have zeros : n + len + 1 ≤ e := by
    rcases windows.look with rfl | ⟨two, one⟩
    · omega
    · by_contra close
      exact absurd (clean.zeros (n - 2) (by omega) (by omega)) (by simp [one])
  obtain ⟨z, early, first⟩ := exists_first (x := x) (v := false) (n := n) (z := e - (len + 1)) len (by omega)
    (clean.zeros.part (by omega) (by omega))
  obtain ⟨a, inside, one⟩ := exists_first (x := x) (v := true) (n := z + len + 1) (z := e) 1 (by omega)
    (clean.ones.part (by omega) (by omega))
  refine ⟨a, inside, z, first, one.behind, ?_, one.flat a (by omega) (by omega)⟩
  intro k from_z before
  by_contra other
  refine one.least k from_z before fun y left right => ?_
  obtain rfl : y = k := by omega
  simpa using other

theorem Clean.closes (clean : Clean x len e) (inside : a ≤ e) : ∃ b ≤ e + len + 1, Closes x len a b := by
  obtain ⟨z, early, first⟩ := exists_first (x := x) (v := true) (n := a + 1) (z := e + 1) len (by omega)
    (clean.ones.part (by omega) (by omega))
  exact ⟨z + len, by omega, z, first, rfl⟩

/-- The only window that can hold a clean edge at its start is that of the edge. -/
theorem Clean.window (clean : Clean x len e) (windows : Windows x len ws n) (behind : n ≤ e) (opens : Opens x len n a)
    (closes : Closes x len a b) (outside : e ≤ a) : (a, b) = (e, e + len + 1) := by
  obtain ⟨c, inside, opens'⟩ := clean.opens windows behind
  obtain rfl : a = e := Nat.le_antisymm (opens.unique opens' ▸ inside) outside
  obtain ⟨d, early, closes'⟩ := clean.closes le_rfl
  have after := closes'.behind
  rw [closes'.unique closes, show d = a + len + 1 by omega]

theorem Clean.mem (clean : Clean x len e) (windows : Windows x len ws n) (before : e < n)
    (outside : ∀ w ∈ ws, e ≤ w.1 ∨ w.2 < e) : (e, e + len + 1) ∈ ws := by
  induction windows with
  | nil => exact absurd before (Nat.not_lt_zero e)
  | @snoc ws n a b earlier opens closes ih =>
      rcases Nat.lt_or_ge e n with old | new
      · exact List.mem_append_left _ (ih old fun w here => outside w (List.mem_append_left _ here))
      · rcases outside (a, b) (by simp) with early | late
        · rw [← clean.window earlier new opens closes early]
          simp
        · omega

/-! ### The detector -/

variable {g : Nat}

/-- What the state says about the `m` samples so far, with the next window looked for from `n` on. -/
def Follows (x : Nat → Bool) (len n m : Nat) (s : State g) : Prop :=
  match s.state with
  | .waitStable0 => Trailing x false len n m s.stabCntr.toNat
  | .waitEdge => ∃ z, First x false len n z ∧ z + len + 1 ≤ m ∧ Flat x false (z + len + 1) m
  | .gotEdge => ∃ a, Opens x len n a ∧ Trailing x true len (a + 1) m s.stabCntr.toNat ∧
      s.tagInt = BitVec.ofNat g (a + number x false a m)

/-- No window has come to its end that has not been taken. -/
def Taken (x : Nat → Bool) (len n m : Nat) : Prop :=
  n ≤ m ∧ ∀ a b, Opens x len n a → Closes x len a b → m ≤ b

theorem Follows.taken {s : State g} {m : Nat} (follows : Follows x len n m s) : Taken x len n m := by
  cases state : s.state with
  | waitStable0 =>
      rw [Follows, state] at follows
      refine ⟨by have := follows.inside; omega, fun a b opens closes => ?_⟩
      obtain ⟨z, first, behind, -, -⟩ := opens
      have late : ¬ z + len < m := fun early => follows.none z first.behind early first.flat
      have after := closes.behind
      omega
  | waitEdge =>
      rw [Follows, state] at follows
      obtain ⟨z, first, behind, zeros⟩ := follows
      refine ⟨by have := first.behind; omega, fun a b opens closes => ?_⟩
      obtain ⟨y, first', behind', -, one⟩ := opens
      obtain rfl := first.unique first'
      have late : ¬ a < m := fun early => by simpa [one] using zeros a behind' early
      have after := closes.behind
      omega
  | gotEdge =>
      rw [Follows, state] at follows
      obtain ⟨a, opens, trailing, -⟩ := follows
      have inside := trailing.inside
      obtain ⟨z, first, behind, -, -⟩ := id opens
      refine ⟨by have := first.behind; omega, fun c b opens' closes => ?_⟩
      obtain rfl := opens.unique opens'
      obtain ⟨y, ones, rfl⟩ := closes
      exact Nat.le_of_not_lt fun early => trailing.none y ones.behind early ones.flat

theorem count_next {threshold c : BitVec 16} {counts : Prop} [Decidable counts] (most : c.toNat ≤ threshold.toNat)
    (short : c ≠ threshold) :
    (if counts then c + 1#16 else 0#16).toNat = if counts then c.toNat + 1 else 0 := by
  have less : c.toNat < threshold.toNat := lt_of_le_of_ne most fun same => short (BitVec.eq_of_toNat_eq same)
  have bound := threshold.isLt
  split
  · rw [BitVec.toNat_add, BitVec.toNat_ofNat]
    omega
  · rfl

section Detect

variable {threshold : BitVec 16} {s : State g} {m : Nat}

theorem follows_stable0 (state : s.state = .waitStable0) (follows : Follows x threshold.toNat n m s) :
    Follows x threshold.toNat n (m + 1) (s.detect threshold (x m)) := by
  rw [Follows, state] at follows
  by_cases full : s.stabCntr = threshold
  · rw [full] at follows
    have inside := follows.inside
    simp only [Follows, State.detect, state, full, if_true]
    exact ⟨m - threshold.toNat, follows.full, by omega, fun k behind before => absurd behind (by omega)⟩
  · have next := follows.next fun same => full (BitVec.eq_of_toNat_eq same)
    rw [← count_next follows.most full] at next
    simp only [Follows, State.detect, state, full, if_false]
    cases here : x m <;> simpa [here] using next

theorem follows_edge (state : s.state = .waitEdge) (free : s.freeCntr = BitVec.ofNat g m)
    (follows : Follows x threshold.toNat n m s) :
    Follows x threshold.toNat n (m + 1) (s.detect threshold (x m)) := by
  rw [Follows, state] at follows
  obtain ⟨z, first, behind, zeros⟩ := follows
  cases here : x m with
  | false =>
      simp only [Follows, State.detect, state, Bool.false_eq_true, if_false]
      exact ⟨z, first, behind.trans m.le_succ, zeros.snoc here⟩
  | true =>
      simp only [Follows, State.detect, state]
      refine ⟨m, ⟨z, first, behind, zeros, here⟩, trailing_start, ?_⟩
      rw [number_succ le_rfl, number_self, here, free]
      rfl

theorem follows_got (state : s.state = .gotEdge) (short : s.stabCntr ≠ threshold)
    (follows : Follows x threshold.toNat n m s) :
    Follows x threshold.toNat n (m + 1) (s.detect threshold (x m)) := by
  rw [Follows, state] at follows
  obtain ⟨a, opens, trailing, tag⟩ := follows
  have next := trailing.next fun same => short (BitVec.eq_of_toNat_eq same)
  have inside := trailing.inside
  rw [← count_next trailing.most short] at next
  simp only [Follows, State.detect, state, short, if_false]
  refine ⟨a, opens, next, ?_⟩
  rw [number_succ (by omega), tag]
  cases x m <;> simp [BitVec.ofNat_add, ← Nat.add_assoc]

/-- The edge that writes a tag closes the window that is open. -/
theorem follows_tag (state : s.state = .gotEdge) (full : s.stabCntr = threshold)
    (windows : Windows x threshold.toNat ws n) (follows : Follows x threshold.toNat n m s) :
    ∃ a, Windows x threshold.toNat (ws ++ [(a, m)]) (m + 1) ∧
      (s.detect threshold (x m)).tagO = BitVec.ofNat g (a + number x false a m) ∧
      Follows x threshold.toNat (m + 1) (m + 1) (s.detect threshold (x m)) := by
  rw [Follows, state, full] at follows
  obtain ⟨a, opens, trailing, tag⟩ := follows
  have inside := trailing.inside
  refine ⟨a, windows.snoc opens ⟨_, trailing.full, by omega⟩, ?_, ?_⟩
  · simpa [State.detect, state, full] using tag
  · simp only [Follows, State.detect, state, full, if_true]
    exact trailing_start

end Detect

/-! ### Runs -/

def samples (inputs : List In) : List Bool := (inputs.filter (·.clkDmtdEnI)).map (·.clkID3)

/-- The tags of a run. -/
def tagList (threshold : BitVec 16) (s : State g) (inputs : List In) : List (BitVec g) :=
  collect (fun s i => s.step threshold i)
    (fun s i => if s.tags threshold i then [(s.step threshold i).tagO] else []) s inputs

/-- No restart, and the counter is not shifted. -/
def Counts (s : State g) (i : In) : Prop := s.restarts i = false ∧ i.shiftEnI = false

instance (s : State g) (i : In) : Decidable (Counts s i) := inferInstanceAs (Decidable (_ ∧ _))

structure Detected (x : Nat → Bool) (threshold : BitVec 16) (m : Nat) (tags : List (BitVec g)) (s : State g)
    (ws : List (Nat × Nat)) (n : Nat) : Prop where
  free : s.freeCntr = BitVec.ofNat g m
  windows : Windows x threshold.toNat ws n
  follows : Follows x threshold.toNat n m s
  tags : tags = ws.map fun w => BitVec.ofNat g (w.1 + number x false w.1 w.2)

theorem detected_step {threshold : BitVec 16} {m : Nat} {tags : List (BitVec g)} {s : State g} {i : In}
    (counts : Counts s i) (enabled : i.clkDmtdEnI = true) (here : x m = i.clkID3)
    (before : Detected x threshold m tags s ws n) :
    ∃ ws n, Detected x threshold (m + 1)
      (tags ++ if s.tags threshold i then [(s.step threshold i).tagO] else []) (s.step threshold i) ws n := by
  obtain ⟨running, still⟩ := counts
  have next : s.step threshold i =
      { s.detect threshold (x m) with freeCntr := s.freeCntr + 1#g, resyncDoneDmtd := s.nextResyncDone i } := by
    simp [State.step, running, enabled, State.nextFree, still, here]
  have free : (s.step threshold i).freeCntr = BitVec.ofNat g (m + 1) := by
    rw [next, before.free, BitVec.ofNat_add]
  by_cases tagged : s.state = .gotEdge ∧ s.stabCntr = threshold
  · obtain ⟨a, windows, tag, follows⟩ := follows_tag tagged.1 tagged.2 before.windows before.follows
    have now : s.tags threshold i = true := by simp [State.tags, running, enabled, tagged]
    refine ⟨_, _, free, windows, by rw [next]; exact follows, ?_⟩
    rw [now, if_pos rfl, List.map_append, ← before.tags, next, tag]
    rfl
  · have now : s.tags threshold i = false := by simpa [State.tags, running, enabled] using tagged
    refine ⟨ws, n, free, before.windows, ?_, by rw [now, ← before.tags]; simp⟩
    rw [next]
    cases state : s.state with
    | waitStable0 => exact follows_stable0 state before.follows
    | waitEdge => exact follows_edge state before.free before.follows
    | gotEdge => exact follows_got state (fun full => tagged ⟨state, full⟩) before.follows

theorem step_disabled {threshold : BitVec 16} {s : State g} {i : In} (running : s.restarts i = false)
    (disabled : i.clkDmtdEnI = false) : s.step threshold i = { s with resyncDoneDmtd := s.nextResyncDone i } := by
  simp [State.step, running, disabled]

theorem samples_snoc (inputs : List In) (i : In) :
    samples (inputs ++ [i]) = samples inputs ++ if i.clkDmtdEnI then [i.clkID3] else [] := by
  cases enabled : i.clkDmtdEnI <;> simp [samples, enabled]

theorem detected_run {threshold : BitVec 16} {s : State g} {inputs : List In} (restarted : Restarted s)
    (counts : Along (fun s i => s.step threshold i) Counts s inputs)
    (stream : samples inputs = upTo x (samples inputs).length) :
    ∃ ws n, Detected x threshold (samples inputs).length (tagList threshold s inputs)
      (run (fun s i => s.step threshold i) s inputs) ws n := by
  induction inputs using List.reverseRecOn with
  | nil =>
      refine ⟨[], 0, restarted.freeCntr, .nil, ?_, rfl⟩
      simp only [run_nil, Follows, restarted.state, restarted.stabCntr]
      exact trailing_start
  | append_singleton before i ih =>
      rw [along_append] at counts
      obtain ⟨earlier, now, -⟩ := counts
      have tags : tagList threshold s (before ++ [i]) = tagList threshold s before ++
          if (run (fun s i => s.step threshold i) s before).tags threshold i then
            [((run (fun s i => s.step threshold i) s before).step threshold i).tagO] else [] := by
        rw [tagList, collect_append, collect_cons, collect_nil, List.append_nil]
        rfl
      rw [tags, run_append, run_cons, run_nil]
      rw [samples_snoc] at stream ⊢
      cases enabled : i.clkDmtdEnI with
      | false =>
          simp only [enabled, Bool.false_eq_true, if_false, List.append_nil] at stream ⊢
          obtain ⟨ws, n, detected⟩ := ih earlier stream
          have silent : (run (fun s i => s.step threshold i) s before).tags threshold i = false := by
            simp [State.tags, enabled]
          refine ⟨ws, n, ?_, detected.windows, ?_, by rw [silent, ← detected.tags]; simp⟩
          · rw [step_disabled now.1 enabled]
            exact detected.free
          · rw [step_disabled now.1 enabled]
            exact detected.follows
      | true =>
          simp only [enabled, if_true, List.length_append, List.length_singleton, upTo_snoc] at stream ⊢
          obtain ⟨old, new⟩ := List.append_inj' stream rfl
          obtain ⟨ws, n, detected⟩ := ih earlier old
          exact detected_step now enabled (List.singleton_inj.mp new).symm detected

/-- The sample with the number `k`, of those in the enabled cycles. -/
def sampleAt (inputs : List In) (k : Nat) : Bool := (samples inputs).getD k false

/-- The windows of a run and its tags: there is no window that is left out, each tag is the one place that balances its
window, and an edge without glitches that lies in no other window has the tag of its first 1. -/
structure Medians (x : Nat → Bool) (len m : Nat) (tags : List (BitVec g)) (ws : List (Nat × Nat)) (n : Nat) :
  Prop where
  windows : Windows x len ws n
  taken : Taken x len n m
  tags : List.Forall₂ (fun w tag => ∃ p, (∀ q, Balanced x true w.1 w.2 q ↔ q = p) ∧ tag = BitVec.ofNat g p) ws tags
  clean : ∀ e, Clean x len e → e + len + 1 < m → (∀ w ∈ ws, e ≤ w.1 ∨ w.2 < e) →
    (e, e + len + 1) ∈ ws ∧ Balanced x true e (e + len + 1) e

theorem Windows.le (windows : Windows x len ws n) : ∀ w ∈ ws, w.1 ≤ w.2 := by
  induction windows with
  | nil => simp
  | snoc earlier opens closes ih =>
      have behind := closes.behind
      exact List.forall_mem_append.mpr ⟨ih, List.forall_mem_singleton.mpr (by omega)⟩

theorem samples_upTo (inputs : List In) : samples inputs = upTo (sampleAt inputs) (samples inputs).length := by
  refine List.ext_getElem (by simp) fun k left right => ?_
  simp [upTo, sampleAt, List.getD, left]

theorem tags_median {threshold : BitVec 16} {s : State g} {inputs : List In} (restarted : Restarted s)
    (counts : Along (fun s i => s.step threshold i) Counts s inputs) :
    (run (fun s i => s.step threshold i) s inputs).freeCntr = BitVec.ofNat g (samples inputs).length ∧
      ∃ ws n, Medians (sampleAt inputs) threshold.toNat (samples inputs).length (tagList threshold s inputs) ws n :=
        by
  obtain ⟨ws, n, detected⟩ := detected_run restarted counts (samples_upTo inputs)
  have windows := detected.windows
  have taken := detected.follows.taken
  refine ⟨detected.free, ws, n, windows, taken, ?_, fun e clean inside outside => ?_⟩
  · rw [detected.tags, List.forall₂_map_right_iff, List.forall₂_same]
    exact fun w here => ⟨_, fun p => balanced_iff (windows.le w here), rfl⟩
  · have before : e < n := by
      by_contra behind
      obtain ⟨a, early, opens⟩ := clean.opens windows (Nat.le_of_not_lt behind)
      obtain ⟨b, ends, closes⟩ := clean.closes early
      have late := taken.2 a b opens closes
      omega
    exact ⟨clean.mem windows before outside, balanced_edge le_rfl (by omega) flat_self clean.ones⟩

/-- Behind three zeros and with a threshold of 2. -/
theorem tags_median_edge :
    tagList 2#16 (start : State 17) (cleanEdge 2) = [3#17] ∧
      ∃ ws n, Medians (sampleAt (cleanEdge 2)) 2 7 (tagList 2#16 (start : State 17) (cleanEdge 2)) ws n :=
  ⟨by decide, (@tags_median 17 2#16 start (cleanEdge 2) start_restarted (by decide)).2⟩

end WrCores.Timing.Deglitcher
