import Mathlib.Tactic
import WrCores.Clocked.Stream
import WrCores.Gencores.RoundRobin

/-!
How wr_softpll_ng.vhd collects the phase tags: a pulse on `tags_p` requests, `f_rr_arbitrate` grants, and two registers
behind a grant the tag is on `tag_muxed` with its channel on `tag_src`. Behind each grant one cycle goes by in which the
next is chosen, so that a channel may have to wait for two cycles for each channel. The enables do not change.
-/

namespace WrCores.Softpll

open Clocked Gencores

/-- The enables are in RCER and OCER, which have 32 bits and 8. -/
structure Generics where
  numRefInputs : Nat
  numOutputs : Nat
  withExtClockInput : Bool
  tagBits : Nat
  refs : numRefInputs ≤ 32
  outs : numOutputs ≤ 8

namespace Generics

variable (g : Generics)

def numTotalChannels : Nat :=
  if g.withExtClockInput then g.numRefInputs + g.numOutputs + 1 else g.numRefInputs + g.numOutputs

abbrev Chan : Type := Fin g.numTotalChannels

theorem channels_lt : g.numTotalChannels < 64 := by
  have refs := g.refs
  have outs := g.outs
  rw [numTotalChannels]
  split <;> omega

end Generics

variable {g : Generics}

structure Enables (g : Generics) where
  rcerInt : BitVec g.numRefInputs
  ocerInt : BitVec g.numOutputs
  extEn : Bool

def Enables.enabled (e : Enables g) (i : g.Chan) : Bool :=
  if i < g.numRefInputs then e.rcerInt.getLsbD i
  else if i < g.numRefInputs + g.numOutputs then e.ocerInt.getLsbD (i - g.numRefInputs)
  else e.extEn

structure In (g : Generics) where
  tagsP : g.Chan → Bool
  tags : g.Chan → BitVec g.tagBits

structure State (g : Generics) where
  tagsReq : BitVec g.numTotalChannels
  tagsGrant : BitVec g.numTotalChannels
  tagsMasked : g.Chan → BitVec g.tagBits
  tagMuxed : BitVec g.tagBits
  tagSrcPre : BitVec 6
  tagSrc : BitVec 6
  tagValidPre : Bool
  tagValid : Bool

/-- `tags_masked` has no reset. -/
structure AfterReset (s : State g) : Prop where
  tagsReq : s.tagsReq = 0#_
  tagsGrant : s.tagsGrant = 0#_
  tagMuxed : s.tagMuxed = 0#_
  tagSrcPre : s.tagSrcPre = 0#6
  tagSrc : s.tagSrc = 0#6
  tagValidPre : s.tagValidPre = false
  tagValid : s.tagValid = false

namespace State

variable (s : State g)

/-- A vector by its bits. -/
def ofBits {n : Nat} (bit : Fin n → Bool) : BitVec n := (BitVec.ofBoolListLE (List.ofFn bit)).cast List.length_ofFn

@[simp] theorem getElem_ofBits {n : Nat} (bit : Fin n → Bool) (k : Nat) (inside : k < n) :
    (ofBits bit)[k] = bit ⟨k, inside⟩ := by
  rw [ofBits, BitVec.getElem_cast, BitVec.getElem_eq_testBit_toNat, ← BitVec.getLsbD, BitVec.getLsbD_ofBoolListLE]
  simp [List.getD, inside]

def tagsGrantP : BitVec g.numTotalChannels := s.tagsReq &&& s.tagsGrant

def muxed : BitVec g.tagBits :=
  (List.finRange g.numTotalChannels).foldl (fun muxed i => muxed ||| s.tagsMasked i) 0#_

def step (e : Enables g) (i : In g) : State g where
  tagsReq := ofBits fun c =>
    if i.tagsP c then e.enabled c else if s.tagsGrant[c.val] then false else s.tagsReq[c.val]
  tagsGrant := fRrArbitrate s.tagsReq s.tagsGrant
  tagsMasked := fun c => if s.tagsGrantP[c.val] then i.tags c else 0#_
  tagMuxed := s.muxed
  tagSrcPre := fOnehotDecode s.tagsGrantP 6
  tagSrc := s.tagSrcPre
  tagValidPre := decide (s.tagsGrantP ≠ 0#_)
  tagValid := s.tagValidPre

end State

/-! ### The tags of a run -/

section Run

variable (e : Enables g) (s : State g) (inputs : Nat → In g)

def stateAt (u : Nat) : State g := run (fun s i => s.step e i) s (upTo inputs u)

/-- An enabled channel has a tag. -/
def Tag (p : g.Chan × Nat) : Prop := e.enabled p.1 = true ∧ (inputs p.2).tagsP p.1 = true

/-- Each tag has one cycle of `tag_valid` for itself, with its channel and its value, and there is no other. -/
def Collects : Prop :=
  ∃ shown : g.Chan × Nat → Nat,
    (∀ p, Tag e inputs p → p.2 < shown p ∧
      (stateAt e s inputs (shown p)).tagValid = true ∧
      (stateAt e s inputs (shown p)).tagSrc.toNat = p.1 ∧
      (stateAt e s inputs (shown p)).tagMuxed = (inputs p.2).tags p.1) ∧
    ∀ v, (stateAt e s inputs v).tagValid = true → ∃! p, Tag e inputs p ∧ shown p = v

end Run

/-- Pulses of one channel are `d` cycles apart. -/
def Spaced (d : Nat) (inputs : Nat → In g) : Prop :=
  ∀ i t u, t < u → (inputs t).tagsP i = true → (inputs u).tagsP i = true → t + d ≤ u

/-- A value stays until the next pulse of its channel. -/
def Stable (inputs : Nat → In g) : Prop :=
  ∀ i u, (inputs (u + 1)).tagsP i = false → (inputs (u + 1)).tags i = (inputs u).tags i

/-! ### One cycle -/

section Edge

variable {e : Enables g} {s : State g} {i : In g} {h : Option g.Chan} {c : g.Chan}

theorem getElem_req (c : g.Chan) : (s.step e i).tagsReq[c.val] =
    if i.tagsP c then e.enabled c else if s.tagsGrant[c.val] then false else s.tagsReq[c.val] := by
  simp [State.step]

theorem req_pulse (pulse : i.tagsP c = true) : (s.step e i).tagsReq[c.val] = e.enabled c := by
  rw [getElem_req, if_pos pulse]

theorem req_served (quiet : i.tagsP c = false) (grant : s.tagsGrant = oneHot (some c)) :
    (s.step e i).tagsReq[c.val] = false := by
  rw [getElem_req, quiet, grant]
  simp

theorem req_stays (quiet : i.tagsP c = false) (grant : s.tagsGrant = oneHot h) (other : h ≠ some c) :
    (s.step e i).tagsReq[c.val] = s.tagsReq[c.val] := by
  rw [getElem_req, quiet, grant, getElem_oneHot, decide_eq_false other]
  simp

theorem and_oneHot (req : BitVec g.numTotalChannels) (on : req[c.val] = true) :
    req &&& oneHot (some c) = oneHot (some c) := by
  apply bits_ext
  intro k
  rw [BitVec.getElem_and, getElem_oneHot]
  by_cases same : c = k
  · subst same
    simp [on]
  · simp [same]

theorem and_oneHot_off (req : BitVec g.numTotalChannels) (off : req[c.val] = false) :
    req &&& oneHot (some c) = 0#_ := by
  apply bits_ext
  intro k
  rw [BitVec.getElem_and, getElem_oneHot]
  by_cases same : c = k
  · subst same
    simp [off]
  · simp [same]

theorem oneHot_ne_zero (c : g.Chan) : oneHot (some c) ≠ 0#_ := by
  intro none
  have bit := getElem_oneHot (some c) c
  rw [none] at bit
  simp at bit

theorem and_zero (req : BitVec g.numTotalChannels) : req &&& oneHot none = 0#_ := by simp [oneHot]

/-- A grant is of use where its channel requests. -/
theorem granted_iff (req : BitVec g.numTotalChannels) (h : Option g.Chan) :
    req &&& oneHot h ≠ 0#_ ↔ ∃ c, h = some c ∧ req[c.val] = true := by
  cases h with
  | none => simp [and_zero]
  | some c =>
      cases on : req[c.val] with
      | false => simp [and_oneHot_off req on, on]
      | true => simpa [and_oneHot req on, on] using oneHot_ne_zero c

theorem foldl_or_zero (values : g.Chan → BitVec g.tagBits) (l : List g.Chan) (none : ∀ k ∈ l, values k = 0#_)
    (x : BitVec g.tagBits) : l.foldl (fun muxed k => muxed ||| values k) x = x := by
  induction l generalizing x with
  | nil => rfl
  | cons k rest ih =>
      rw [List.foldl_cons, none k List.mem_cons_self, BitVec.or_zero]
      exact ih (fun j member => none j (List.mem_cons_of_mem k member)) x

/-- The or of all values, where only one channel has one. -/
theorem foldl_or_one (values : g.Chan → BitVec g.tagBits) (c : g.Chan) (others : ∀ k, k ≠ c → values k = 0#_) :
    (List.finRange g.numTotalChannels).foldl (fun muxed k => muxed ||| values k) 0#_ = values c := by
  obtain ⟨first, rest, split⟩ := List.append_of_mem (List.mem_finRange c)
  have distinct := List.nodup_finRange g.numTotalChannels
  rw [split, List.nodup_append, List.nodup_cons] at distinct
  have before : ∀ k ∈ first, values k = 0#_ := fun k member =>
    others k (distinct.2.2 k member c List.mem_cons_self)
  have behind : ∀ k ∈ rest, values k = 0#_ := by
    intro k member
    apply others
    rintro rfl
    exact distinct.2.1.1 member
  rw [split, List.foldl_append, foldl_or_zero values first before, List.foldl_cons,
    foldl_or_zero values rest behind, BitVec.zero_or]

end Edge

/-! ### How long a request waits -/

/-- The cycles before the grant of a channel is of use. -/
def wait (req : BitVec g.numTotalChannels) (h : Option g.Chan) (c : g.Chan) : Nat :=
  if req &&& oneHot h = 0#_ then 2 * distance h c - 1 else if h = some c then 0 else 2 * distance h c

section Wait

variable {e : Enables g} {s : State g} {i : In g} {h : Option g.Chan} {c : g.Chan}

theorem wait_le (req : BitVec g.numTotalChannels) (h : Option g.Chan) (c : g.Chan) :
    wait req h c ≤ 2 * g.numTotalChannels - 1 := by
  rw [wait]
  split
  · have far := distance_le h c
    omega
  · rename_i busy
    obtain ⟨k, rfl, -⟩ := (granted_iff req h).1 busy
    split
    · exact Nat.zero_le _
    · rename_i other
      have far := distance_other (g := k) (i := c) fun same => other (by rw [same])
      omega

/-- The next grant brings every request nearer to its own. -/
theorem wait_step (grant : s.tagsGrant = oneHot h) (quiet : ∀ k, s.tagsReq[k.val] = true → i.tagsP k = false) :
    ∃ h', (s.step e i).tagsGrant = oneHot h' ∧
      ∀ c, s.tagsReq[c.val] = true → (s.step e i).tagsReq[c.val] = true →
        wait (s.step e i).tagsReq h' c < wait s.tagsReq h c := by
  have next : (s.step e i).tagsGrant = fRrArbitrate s.tagsReq (oneHot h) := by rw [← grant]; rfl
  by_cases idle : s.tagsReq &&& oneHot h = 0#_
  · by_cases none : s.tagsReq = 0#_
    · refine ⟨.none, by rw [next, none, fRrArbitrate_zero], fun c on => ?_⟩
      simp [none] at on
    · obtain ⟨j, chosen, on, nearest⟩ := fRrArbitrate_next idle none
      have off : h ≠ some j := fun same => (granted_iff _ _).2 ⟨j, same, on⟩ idle
      have stays : (s.step e i).tagsReq[j.val] = true := by rw [req_stays (quiet j on) grant off, on]
      have busy : (s.step e i).tagsReq &&& oneHot (some j) ≠ 0#_ := (granted_iff _ _).2 ⟨j, rfl, stays⟩
      refine ⟨some j, by rw [next, chosen], fun c asks _ => ?_⟩
      have far := distance_pos h c
      rw [wait, if_neg busy, wait, if_pos idle]
      split
      · omega
      · rename_i other
        have nearer := distance_after h (fun same => other (by rw [same])) (nearest c asks)
        omega
  · obtain ⟨j, rfl, on⟩ := (granted_iff _ _).1 idle
    have off : (s.step e i).tagsReq[j.val] = false := req_served (quiet j on) grant
    refine ⟨some j, by rw [next, fRrArbitrate_held idle], fun c _ asks => ?_⟩
    have other : j ≠ c := by
      rintro rfl
      rw [off] at asks
      exact Bool.false_ne_true asks
    have far := distance_pos (some j) c
    have free : (s.step e i).tagsReq &&& oneHot (some j) = 0#_ := and_oneHot_off _ off
    rw [wait, if_pos free, wait, if_neg idle, if_neg (by simpa using other)]
    omega

end Wait

/-! ### The whole run -/

section Run

variable {e : Enables g} {s : State g} {inputs : Nat → In g} {c : g.Chan} {t u v : Nat}

theorem stateAt_zero : stateAt e s inputs 0 = s := rfl

theorem stateAt_succ (u : Nat) : stateAt e s inputs (u + 1) = (stateAt e s inputs u).step e (inputs u) := by
  rw [stateAt, upTo_snoc, run_append]
  rfl

/-- Every request comes from a tag and is served before the channel can have the next one. -/
def Waits (e : Enables g) (s : State g) (inputs : Nat → In g) (u : Nat) : Prop :=
  ∃ h, (stateAt e s inputs u).tagsGrant = oneHot h ∧
    ∀ c : g.Chan, (stateAt e s inputs u).tagsReq[c.val] = true → ∃ t < u, Tag e inputs (c, t) ∧
      u + wait (stateAt e s inputs u).tagsReq h c ≤ t + 2 * g.numTotalChannels

theorem Waits.quiet (waits : Waits e s inputs u) (spaced : Spaced (2 * g.numTotalChannels + 1) inputs)
    (on : (stateAt e s inputs u).tagsReq[c.val] = true) : (inputs u).tagsP c = false := by
  obtain ⟨h, -, requests⟩ := waits
  obtain ⟨t, early, tag, soon⟩ := requests c on
  by_contra pulse
  have far := spaced c t u early tag.2 (by simpa using pulse)
  omega

theorem waits_always (reset : AfterReset s) (spaced : Spaced (2 * g.numTotalChannels + 1) inputs) (u : Nat) :
    Waits e s inputs u := by
  induction u with
  | zero =>
      refine ⟨none, by rw [stateAt_zero, reset.tagsGrant]; rfl, fun c on => ?_⟩
      simp [stateAt_zero, reset.tagsReq] at on
  | succ u waits =>
      have quiet : ∀ k : g.Chan, (stateAt e s inputs u).tagsReq[k.val] = true → (inputs u).tagsP k = false :=
        fun k on => waits.quiet spaced on
      obtain ⟨h, grant, requests⟩ := waits
      obtain ⟨h', grant', nearer⟩ := wait_step (e := e) grant quiet
      rw [Waits, stateAt_succ]
      refine ⟨h', grant', fun c on => ?_⟩
      cases pulse : (inputs u).tagsP c with
      | true =>
          rw [req_pulse pulse] at on
          have bound := wait_le ((stateAt e s inputs u).step e (inputs u)).tagsReq h' c
          have some := c.isLt
          exact ⟨u, Nat.lt_succ_self u, ⟨on, pulse⟩, by omega⟩
      | false =>
          -- an old request
          have asks : (stateAt e s inputs u).tagsReq[c.val] = true := by
            rw [getElem_req, pulse] at on
            simp only [Bool.false_eq_true, if_false] at on
            split at on
            · exact absurd on Bool.false_ne_true
            · exact on
          obtain ⟨t, early, tag, soon⟩ := requests c asks
          have less := nearer c asks on
          exact ⟨t, by omega, tag, by omega⟩

def Serves (e : Enables g) (s : State g) (inputs : Nat → In g) (v : Nat) (c : g.Chan) : Prop :=
  (stateAt e s inputs v).tagsReq[c.val] = true ∧ (stateAt e s inputs v).tagsGrant = oneHot (some c)

/-- The tag a service is for. -/
theorem serves_tag (reset : AfterReset s) (spaced : Spaced (2 * g.numTotalChannels + 1) inputs)
    (serves : Serves e s inputs v c) : ∃ t, Tag e inputs (c, t) ∧ t < v ∧ v ≤ t + 2 * g.numTotalChannels := by
  obtain ⟨h, -, requests⟩ := waits_always (e := e) reset spaced v
  obtain ⟨t, early, tag, soon⟩ := requests c serves.1
  exact ⟨t, tag, early, by omega⟩

/-- Every tag is served. -/
theorem tag_serves (reset : AfterReset s) (spaced : Spaced (2 * g.numTotalChannels + 1) inputs)
    (tag : Tag e inputs (c, t)) : ∃ v, t < v ∧ v ≤ t + 2 * g.numTotalChannels ∧ Serves e s inputs v c := by
  by_contra none
  push Not at none
  have asks : ∀ k ≤ 2 * g.numTotalChannels, (stateAt e s inputs (t + 1 + k)).tagsReq[c.val] = true := by
    intro k within
    induction k with
    | zero => rw [Nat.add_zero, stateAt_succ, req_pulse tag.2, tag.1]
    | succ k ih =>
        have on := ih (by omega)
        obtain ⟨h, grant, -⟩ := waits_always (e := e) reset spaced (t + 1 + k)
        have other : h ≠ some c := by
          rintro rfl
          exact none (t + 1 + k) (by omega) (by omega) ⟨on, grant⟩
        have quiet := (waits_always (e := e) reset spaced (t + 1 + k)).quiet spaced on
        rw [← Nat.add_assoc, stateAt_succ, req_stays quiet grant other, on]
  obtain ⟨h, -, requests⟩ := waits_always (e := e) reset spaced (t + 1 + 2 * g.numTotalChannels)
  obtain ⟨t', early, tag', soon⟩ := requests c (asks _ le_rfl)
  have later : t < t' := by omega
  have far := spaced c t t' later tag.2 tag'.2
  omega

/-- No tag is served twice. -/
theorem serves_once (reset : AfterReset s) (spaced : Spaced (2 * g.numTotalChannels + 1) inputs)
    (first : Serves e s inputs u c) (second : Serves e s inputs v c) (less : u < v) :
    ∃ t, Tag e inputs (c, t) ∧ u ≤ t ∧ t < v := by
  by_contra none
  push Not at none
  have off : ∀ k, u + 1 + k ≤ v → (stateAt e s inputs (u + 1 + k)).tagsReq[c.val] = false := by
    intro k within
    induction k with
    | zero =>
        have quiet := (waits_always (e := e) reset spaced u).quiet spaced first.1
        rw [Nat.add_zero, stateAt_succ, req_served quiet first.2]
    | succ k ih =>
        rw [← Nat.add_assoc, stateAt_succ, getElem_req, ih (by omega), ite_self]
        split
        · rename_i pulse
          by_contra on
          have late := none (u + 1 + k) ⟨by simpa using on, pulse⟩ (by omega)
          omega
        · rfl
  have low := off (v - (u + 1)) (by omega)
  rw [show u + 1 + (v - (u + 1)) = v by omega, second.1] at low
  exact Bool.false_ne_true low.symm

theorem service_unique (reset : AfterReset s) (spaced : Spaced (2 * g.numTotalChannels + 1) inputs)
    (tag : Tag e inputs (c, t)) (first : Serves e s inputs u c) (second : Serves e s inputs v c) (early : t < u)
    (soon : v ≤ t + 2 * g.numTotalChannels) : v ≤ u := by
  by_contra less
  obtain ⟨t', tag', above, below⟩ := serves_once reset spaced first second (not_le.1 less)
  have far := spaced c t t' (by omega) tag.2 tag'.2
  omega

theorem tag_unique (spaced : Spaced (2 * g.numTotalChannels + 1) inputs) (first : Tag e inputs (c, t))
    (second : Tag e inputs (c, u)) (soon : v ≤ t + 2 * g.numTotalChannels) (early : u < v) : u ≤ t := by
  by_contra less
  have far := spaced c t u (not_le.1 less) first.2 second.2
  omega

theorem serves_same {k : g.Chan} (first : Serves e s inputs v c) (second : Serves e s inputs v k) : c = k := by
  have grant := getElem_oneHot (some k) c
  rw [← second.2, first.2, getElem_oneHot, decide_eq_true rfl] at grant
  simpa using (of_decide_eq_true grant.symm).symm

/-- What a service shows two cycles later. -/
theorem serves_shown (serves : Serves e s inputs v c) :
    (stateAt e s inputs (v + 2)).tagValid = true ∧ (stateAt e s inputs (v + 2)).tagSrc.toNat = c ∧
      (stateAt e s inputs (v + 2)).tagMuxed = (inputs v).tags c := by
  have grantP : (stateAt e s inputs v).tagsGrantP = oneHot (some c) := by
    rw [State.tagsGrantP, serves.2, and_oneHot _ serves.1]
  rw [stateAt_succ, stateAt_succ]
  refine ⟨?_, ?_, ?_⟩
  · simp [State.step, grantP, oneHot_ne_zero]
  · have fits : c.val < 2 ^ 6 := c.isLt.trans g.channels_lt
    simpa [State.step, grantP, fOnehotDecode_oneHot] using fits
  · have others : ∀ k, k ≠ c → ((stateAt e s inputs v).step e (inputs v)).tagsMasked k = 0#_ := by
      intro k other
      simp only [State.step, grantP, getElem_oneHot]
      simp [Ne.symm other]
    have own : ((stateAt e s inputs v).step e (inputs v)).tagsMasked c = (inputs v).tags c := by
      simp only [State.step, grantP, getElem_oneHot]
      simp
    exact (foldl_or_one _ c others).trans own

/-- Nothing else is shown. -/
theorem shown_serves (reset : AfterReset s) (spaced : Spaced (2 * g.numTotalChannels + 1) inputs)
    (valid : (stateAt e s inputs u).tagValid = true) : ∃ v c, u = v + 2 ∧ Serves e s inputs v c := by
  match u with
  | 0 => simp [stateAt_zero, reset.tagValid] at valid
  | 1 => simp [stateAt_succ, stateAt_zero, State.step, reset.tagValidPre] at valid
  | v + 2 =>
      obtain ⟨h, grant, -⟩ := waits_always (e := e) reset spaced v
      have some : (stateAt e s inputs v).tagsReq &&& oneHot h ≠ 0#_ := by
        simpa [stateAt_succ, State.step, State.tagsGrantP, grant] using valid
      obtain ⟨c, rfl, on⟩ := (granted_iff _ _).1 some
      exact ⟨v, c, rfl, on, grant⟩

/-- Up to its service a tag keeps its value. -/
theorem stable_value (spaced : Spaced (2 * g.numTotalChannels + 1) inputs) (stable : Stable inputs)
    (tag : Tag e inputs (c, t)) (k : Nat) (within : k ≤ 2 * g.numTotalChannels) :
    (inputs (t + k)).tags c = (inputs t).tags c := by
  induction k with
  | zero => rfl
  | succ k ih =>
      have quiet : (inputs (t + k + 1)).tagsP c = false := by
        by_contra pulse
        have far := spaced c t (t + k + 1) (by omega) tag.2 (by simpa using pulse)
        omega
      rw [← Nat.add_assoc, stable c (t + k) quiet]
      exact ih (by omega)

end Run

theorem tags_collected (e : Enables g) (s : State g) (inputs : Nat → In g) (reset : AfterReset s)
    (spaced : Spaced (2 * g.numTotalChannels + 1) inputs) (stable : Stable inputs) : Collects e s inputs := by
  have served : ∀ p : g.Chan × Nat, ∃ v, Tag e inputs p →
      p.2 < v ∧ v ≤ p.2 + 2 * g.numTotalChannels ∧ Serves e s inputs v p.1 := by
    rintro ⟨c, t⟩
    by_cases tag : Tag e inputs (c, t)
    · obtain ⟨v, late, soon, serves⟩ := tag_serves reset spaced tag
      exact ⟨v, fun _ => ⟨late, soon, serves⟩⟩
    · exact ⟨0, fun is => absurd is tag⟩
  choose service serviced using served
  refine ⟨fun p => service p + 2, fun p tag => ?_, fun u valid => ?_⟩
  · obtain ⟨late, soon, serves⟩ := serviced p tag
    obtain ⟨valid, src, value⟩ := serves_shown serves
    have kept := stable_value spaced stable tag (service p - p.2) (by omega)
    rw [show p.2 + (service p - p.2) = service p by omega] at kept
    exact ⟨Nat.lt_add_right 2 late, valid, src, by rw [value, kept]⟩
  · obtain ⟨v, c, rfl, serves⟩ := shown_serves reset spaced valid
    obtain ⟨t, tag, early, near⟩ := serves_tag reset spaced serves
    obtain ⟨late, soon, again⟩ := serviced (c, t) tag
    have up := service_unique reset spaced tag serves again early soon
    have down := service_unique reset spaced tag again serves late near
    refine ⟨(c, t), ⟨tag, congrArg (· + 2) (le_antisymm up down)⟩, ?_⟩
    rintro ⟨k, t'⟩ ⟨tag', shown⟩
    obtain ⟨late', soon', other⟩ := serviced (k, t') tag'
    obtain rfl : service (k, t') = v := by simpa using shown
    obtain rfl := serves_same serves other
    have above := tag_unique spaced tag tag' near late'
    have below := tag_unique spaced tag' tag soon' early
    exact Prod.ext rfl (le_antisymm above below)

/-! ### Four channels -/

section Four

def four : Generics := ⟨3, 1, false, 1, by decide, by decide⟩

def allEnabled : Enables four := ⟨7#3, 1#1, false⟩

def fourReset : State four := ⟨0, 0, fun _ => 0, 0, 0, 0, false, false⟩

def pulses (times : List (Nat × Nat)) (t : Nat) : In four :=
  ⟨fun c => decide ((t, c.val) ∈ times), fun _ => 1⟩

theorem tags_collected_together :
    Collects allEnabled fourReset (pulses [(0, 0), (0, 1), (0, 2), (0, 3)]) :=
  tags_collected allEnabled fourReset _ ⟨rfl, rfl, rfl, rfl, rfl, rfl, rfl⟩
    (by
      intro i t u less first second
      simp only [pulses, List.mem_cons, Prod.mk.injEq, List.not_mem_nil, or_false, decide_eq_true_eq] at first second
      omega)
    fun _ _ _ => rfl

/-- The last channel waits for the others, and its second pulse comes before its grant. -/
def contended : List (Nat × Nat) := [(0, 0), (2, 1), (1, 2), (0, 3), (7, 3)]

theorem contended_spaced : Spaced (four.numTotalChannels + 3) (pulses contended) := by
  intro i t u less first second
  simp only [pulses, contended, List.mem_cons, Prod.mk.injEq, List.not_mem_nil, or_false, decide_eq_true_eq]
    at first second
  have count : four.numTotalChannels = 4 := rfl
  omega

theorem contended_late (v : Nat) (late : 8 ≤ v) (i : four.Chan) : (pulses contended v).tagsP i = false := by
  simp only [pulses, contended, List.mem_cons, Prod.mk.injEq, List.not_mem_nil, or_false, decide_eq_false_iff_not]
  omega

theorem contended_before : ∀ v < 16, (stateAt allEnabled fourReset (pulses contended) v).tagValid = true →
    (stateAt allEnabled fourReset (pulses contended) v).tagSrc.toNat = 3 → v = 10 := by
  decide +kernel

/-- With all tags served nothing more is shown. -/
theorem contended_behind (k : Nat) : (stateAt allEnabled fourReset (pulses contended) (16 + k)).tagsReq = 0#_ ∧
    (stateAt allEnabled fourReset (pulses contended) (16 + k)).tagValidPre = false ∧
    (stateAt allEnabled fourReset (pulses contended) (16 + k)).tagValid = false := by
  induction k with
  | zero => decide +kernel
  | succ k ih =>
      obtain ⟨req, pre, -⟩ := ih
      rw [← Nat.add_assoc, stateAt_succ]
      refine ⟨bits_ext fun c => ?_, ?_, ?_⟩
      · rw [getElem_req, contended_late _ (by omega), req]
        simp
      · simp [State.step, State.tagsGrantP, req]
      · simpa [State.step] using pre

/-- Three cycles more than there are channels are too few. -/
theorem contended_lost : Spaced (four.numTotalChannels + 3) (pulses contended) ∧ Stable (pulses contended) ∧
    AfterReset fourReset ∧ ¬Collects allEnabled fourReset (pulses contended) := by
  refine ⟨contended_spaced, fun _ _ _ => rfl, ⟨rfl, rfl, rfl, rfl, rfl, rfl, rfl⟩, ?_⟩
  rintro ⟨shown, tags, once⟩
  have only : ∀ v, (stateAt allEnabled fourReset (pulses contended) v).tagValid = true →
      (stateAt allEnabled fourReset (pulses contended) v).tagSrc.toNat = 3 → v = 10 := by
    intro v valid src
    by_cases early : v < 16
    · exact contended_before v early valid src
    · have behind := (contended_behind (v - 16)).2.2
      rw [show 16 + (v - 16) = v by omega, valid] at behind
      exact absurd behind.symm Bool.false_ne_true
  have first : Tag allEnabled (pulses contended) ((3 : Fin 4), 0) := ⟨rfl, rfl⟩
  have second : Tag allEnabled (pulses contended) ((3 : Fin 4), 7) := ⟨rfl, rfl⟩
  obtain ⟨-, valid, src, -⟩ := tags _ first
  obtain ⟨-, valid', src', -⟩ := tags _ second
  have same := (only _ valid src).trans (only _ valid' src').symm
  have twice := (once _ valid').unique ⟨first, same⟩ ⟨second, rfl⟩
  exact absurd (congrArg Prod.snd twice) (by decide)

end Four

end WrCores.Softpll
