import WrCores.Wishbone.Crossbar

/-!
Runs of the crossbar: who is connected next, where requests go, and to whom the answers come back. A request is handed
over at an edge with cyc and stb and without stall, an answer is ack, err or rty.
-/

namespace WrCores.Wishbone.Crossbar

open Clocked Relator

variable {m n : Nat} {g : Generics n}

/-- A connection is kept while its master keeps the cycle. Only a master and a slave that are both free are connected
anew, and then the master is the lowest of all that ask for the slave, of those that are not free too. -/
theorem arbitration (g : Generics n) (err : Bool) (inputs : List (Inputs m n)) (i i' : Inputs m n) :
    let s := run (step g) (reset err) inputs
    (∀ a b, matrixNew g s i a b = true ↔ (s.matrixOld a b = true ∧ (i.slaveI a).cyc = true) ∨
      ((i.slaveI a).cyc = true ∧ (i.slaveI a).stb = true ∧ aims g (i.slaveI a).adr b = true ∧
        (∀ a' < a, request g i.slaveI a' b = false) ∧ (∀ b', s.matrixOld a b' = false) ∧
          ∀ a', s.matrixOld a' b = true → (i.slaveI a').cyc = false)) ∧
      ∀ a b, i.rstN = true → granted g s i a b = true → (i.slaveI a).cyc = true → (i'.slaveI a).cyc = true →
        granted g (step g s i) i' a b = true := by
  intro s
  have unique : Matching s.matrixOld := matching_run err inputs
  refine ⟨fun a b => ?_, fun a b on connected cyc cyc' => ?_⟩
  · rw [matrixNew, (renewed s.matrixOld i.slaveI).cases unique, selected_iff, request_iff, Bound]
    apply or_congr_right
    constructor
    · rintro ⟨⟨⟨cyc, stb, aim⟩, lowest⟩, free⟩
      refine ⟨cyc, stb, aim, lowest, fun b' => ?_, fun a' there => ?_⟩
      · rw [← Bool.not_eq_true]
        exact fun has => free (.inr ⟨cyc, b', has⟩)
      · rw [← Bool.not_eq_true]
        exact fun still => free (.inl ⟨a', there, still⟩)
    · rintro ⟨cyc, stb, aim, lowest, alone, free⟩
      refine ⟨⟨⟨cyc, stb, aim⟩, lowest⟩, ?_⟩
      rintro (⟨a', there, still⟩ | ⟨-, b', has⟩)
      · rw [free a' there] at still
        cases still
      · rw [alone b'] at has
        cases has
  · have next : (step g s i).matrixOld = matrixNew g s i := if_pos on
    rw [granted] at connected ⊢
    split at connected
    next registered =>
      rw [if_pos registered, next]
      exact (renewed s.matrixOld i.slaveI).holds connected cyc
    next plain =>
      rw [if_neg plain, matrixNew, next]
      exact (renewed _ i'.slaveI).holds connected cyc'

/-! ### Where requests go -/

/-- The state before an edge. -/
def stateAt (g : Generics n) (err : Bool) (inputs : Nat → Inputs m n) (t : Nat) : State m n :=
  run (step g) (reset err) (upTo inputs t)

theorem stateAt_succ (err : Bool) (inputs : Nat → Inputs m n) (t : Nat) :
    stateAt g err inputs (t + 1) = step g (stateAt g err inputs t) (inputs t) := by
  rw [stateAt, upTo_snoc, run_append]
  rfl

theorem stateAt_matching (err : Bool) (inputs : Nat → Inputs m n) (t : Nat) :
    Matching (stateAt g err inputs t).matrixOld := matching_run err _

/-- The master hands over a request. -/
def hands (g : Generics n) (s : State m n) (i : Inputs m n) (a : Fin m) : Bool :=
  (i.slaveI a).cyc && (i.slaveI a).stb && !(slaveO g s i a).stall

/-- The master keeps the cycle from one edge to another. -/
def Keeps (inputs : Nat → Inputs m n) (a : Fin m) (t₀ t : Nat) : Prop :=
  ∀ k, t₀ ≤ k → k ≤ t → ((inputs k).slaveI a).cyc = true

/-- The request that a connection has been made for. -/
def MadeFor (g : Generics n) (inputs : Nat → Inputs m n) (a : Fin m) (b : Fin (n + 1)) (t : Nat) : Prop :=
  ∃ t₀ ≤ t, Keeps inputs a t₀ t ∧ ((inputs t₀).slaveI a).stb = true ∧ aims g ((inputs t₀).slaveI a).adr b = true

theorem madeFor_new (err : Bool) (inputs : Nat → Inputs m n) (a : Fin m) (b : Fin (n + 1)) (t : Nat)
    (before : (stateAt g err inputs t).matrixOld a b = true → 0 < t ∧ MadeFor g inputs a b (t - 1))
    (new : matrixNew g (stateAt g err inputs t) (inputs t) a b = true) : MadeFor g inputs a b t := by
  rcases ((renewed _ _).cases (stateAt_matching err inputs t)).mp new with ⟨old, cyc⟩ | ⟨chosen, -⟩
  · obtain ⟨positive, t₀, early, keeps, asks⟩ := before old
    refine ⟨t₀, by omega, fun k late soon => ?_, asks⟩
    by_cases now : k = t
    · exact now ▸ cyc
    · exact keeps k late (by omega)
  · obtain ⟨cyc, asks⟩ := request_iff.mp (selected_iff.mp chosen).1
    refine ⟨t, le_rfl, fun k late soon => ?_, asks⟩
    rwa [show k = t by omega]

theorem madeFor_old (err : Bool) (inputs : Nat → Inputs m n) (a : Fin m) (b : Fin (n + 1)) (t : Nat)
    (old : (stateAt g err inputs t).matrixOld a b = true) : 0 < t ∧ MadeFor g inputs a b (t - 1) := by
  induction t with
  | zero => cases old
  | succ t ih =>
      rw [stateAt_succ, step] at old
      simp only at old
      split at old
      · exact ⟨Nat.succ_pos t, madeFor_new err inputs a b t ih old⟩
      · cases old

theorem madeFor_granted (err : Bool) (inputs : Nat → Inputs m n) (a : Fin m) (b : Fin (n + 1)) (t : Nat)
    (cyc : ((inputs t).slaveI a).cyc = true)
    (connected : granted g (stateAt g err inputs t) (inputs t) a b = true) : MadeFor g inputs a b t := by
  rw [granted] at connected
  split at connected
  · have kept := (renewed (g := g) (stateAt g err inputs t).matrixOld (inputs t).slaveI).holds connected cyc
    exact madeFor_new err inputs a b t (madeFor_old err inputs a b t) kept
  · exact madeFor_new err inputs a b t (madeFor_old err inputs a b t) connected

theorem hands_granted {s : State m n} {i : Inputs m n} {a : Fin m} (handed : hands g s i a = true) :
    ∃ b, granted g s i a b = true := by
  by_contra none
  have free : ∀ b, granted g s i a b = false := fun b => by
    rw [← Bool.not_eq_true]
    exact fun connected => none ⟨b, connected⟩
  rw [hands, slaveO, masterLogic_free _ free] at handed
  simp at handed

/-- A request that is handed over is there at one slave that is not stalled: the one that the first request of the
connection was for, with the cycle kept since. So it is the slave of its own address if all requests of a cycle are
for the same one. -/
theorem routed (g : Generics n) (err : Bool) (inputs : Nat → Inputs m n) (a : Fin m) (t : Nat)
    (handed : hands g (stateAt g err inputs t) (inputs t) a = true) :
    ∃ b, masterOe g (stateAt g err inputs t) (inputs t) b = (inputs t).slaveI a ∧
      (masterIe (stateAt g err inputs t) (inputs t) b).stall = false ∧ MadeFor g inputs a b t ∧
        ((∀ u v, u ≤ v → Keeps inputs a u v → ((inputs u).slaveI a).stb = true → ((inputs v).slaveI a).stb = true →
          ∀ b, aims g ((inputs u).slaveI a).adr b = true → aims g ((inputs v).slaveI a).adr b = true) →
            aims g ((inputs t).slaveI a).adr b = true) := by
  obtain ⟨b, connected⟩ := hands_granted handed
  have unique : Matching (granted g (stateAt g err inputs t) (inputs t)) :=
    matching_granted (stateAt_matching err inputs t) (inputs t)
  rw [hands, slaveO, masterLogic_granted unique _ connected] at handed
  simp only [Bool.and_eq_true, Bool.not_eq_true'] at handed
  obtain ⟨⟨cyc, stb⟩, moves⟩ := handed
  have made := madeFor_granted err inputs a b t cyc connected
  refine ⟨b, slaveLogic_granted unique _ connected, moves, made, fun same => ?_⟩
  obtain ⟨t₀, early, keeps, asks, aim⟩ := made
  exact same t₀ t early keeps asks stb b aim

/-- One master and one slave, a request at the first edge and its answer at the second. -/
def pair : Generics 1 := ⟨false, fun _ => 0x10, fun _ => 0xFFFFFFF0, by decide⟩

def pairInputs (t : Nat) : Inputs 1 1 :=
  ⟨true, fun _ => ⟨true, t == 0, 0x10, 0xF, true, 0⟩, fun _ => ⟨t == 1, false, false, false, false, 0⟩⟩

theorem routed_pair : ∃ b, masterOe pair (stateAt pair false pairInputs 0) (pairInputs 0) b = (pairInputs 0).slaveI 0 ∧
    aims pair 0x10 b = true := by
  obtain ⟨b, there, -, -, own⟩ := routed pair false pairInputs 0 0 (by decide +kernel)
  exact ⟨b, there, own fun _ _ _ _ _ _ _ aim => aim⟩

/-! ### Where answers go -/

/-- The slave takes a request. -/
def takes (g : Generics n) (s : State m n) (i : Inputs m n) (b : Fin (n + 1)) : Bool :=
  (masterOe g s i b).cyc && (masterOe g s i b).stb && !(masterIe s i b).stall

def answers (s : State m n) (i : Inputs m n) (b : Fin (n + 1)) : Bool :=
  (masterIe s i b).ack || (masterIe s i b).err || (masterIe s i b).rty

/-- The master hears an answer. -/
def hears (g : Generics n) (s : State m n) (i : Inputs m n) (a : Fin m) : Bool :=
  (slaveO g s i a).ack || (slaveO g s i a).err || (slaveO g s i a).rty

def user (g : Generics n) (s : State m n) (i : Inputs m n) (b : Fin (n + 1)) : Option (Fin m) :=
  (List.finRange m).find? fun a => granted g s i a b

/-- The master of the request that the slave takes. -/
def sends (g : Generics n) (b : Fin (n + 1)) (s : State m n) (i : Inputs m n) : List (Option (Fin m)) :=
  if takes g s i b then [user g s i b] else []

/-- The master of the connection that the slave answers on. -/
def returns (g : Generics n) (b : Fin (n + 1)) (s : State m n) (i : Inputs m n) : List (Option (Fin m)) :=
  if answers s i b then [user g s i b] else []

section Edge

variable {s : State m n} {i : Inputs m n} {a : Fin m} {b : Fin (n + 1)}

theorem user_granted (unique : Matching (granted g s i)) (connected : granted g s i a b = true) :
    user g s i b = some a := by
  rw [user]
  cases found : (List.finRange m).find? fun a => granted g s i a b with
  | none => exact absurd connected (List.find?_eq_none.mp found a (List.mem_finRange a))
  | some a' =>
      have there : granted g s i a' b = true := List.find?_some (p := fun a => granted g s i a b) found
      rw [unique.1 there connected]

theorem takes_granted (unique : Matching (granted g s i)) (connected : granted g s i a b = true) :
    takes g s i b = hands g s i a ∧ answers s i b = hears g s i a := by
  rw [takes, hands, answers, hears, masterOe, slaveO, slaveLogic_granted unique _ connected,
    masterLogic_granted unique _ connected]
  exact ⟨rfl, rfl⟩

theorem takes_free (free : ∀ a, granted g s i a b = false) : takes g s i b = false := by
  rw [takes, masterOe, slaveLogic_free _ free]
  rfl

theorem hears_granted (heard : hears g s i a = true) : ∃ b, granted g s i a b = true := by
  by_contra none
  have free : ∀ b, granted g s i a b = false := fun b => by
    rw [← Bool.not_eq_true]
    exact fun connected => none ⟨b, connected⟩
  rw [hears, slaveO, masterLogic_free _ free] at heard
  simp at heard

end Edge

section Ledger

variable (g) (inputs : Nat → Inputs m n)

/-- At how many edges a signal has been set. -/
def tally (signal : State m n → Inputs m n → Bool) (t : Nat) : Nat :=
  Nat.count (fun k => signal (stateAt g false inputs k) (inputs k) = true) t

/-- A master keeps the cycle while it has more requests than answers. -/
def Patient : Prop := ∀ a t, tally g inputs (hears g · · a) t < tally g inputs (hands g · · a) t →
  ((inputs t).slaveI a).cyc = true

/-- A slave has never given more answers than it has taken requests. -/
def Honest : Prop := ∀ b : Fin n, ∀ t,
  tally g inputs (answers · · b.castSucc) t ≤ tally g inputs (takes g · · b.castSucc) t

/-- The masters of the requests that a slave has taken. -/
def sent (b : Fin (n + 1)) (t : Nat) : List (Option (Fin m)) :=
  collect (step g) (sends g b) (reset false) (upTo inputs t)

/-- The masters that its answers have gone to. -/
def returned (b : Fin (n + 1)) (t : Nat) : List (Option (Fin m)) :=
  collect (step g) (returns g b) (reset false) (upTo inputs t)

theorem tally_succ (signal : State m n → Inputs m n → Bool) (t : Nat) : tally g inputs signal (t + 1) =
    tally g inputs signal t + (signal (stateAt g false inputs t) (inputs t)).toNat := by
  rw [tally, Nat.count_succ, tally]
  cases signal (stateAt g false inputs t) (inputs t) <;> rfl

theorem sent_succ (b : Fin (n + 1)) (t : Nat) :
    sent g inputs b (t + 1) = sent g inputs b t ++ sends g b (stateAt g false inputs t) (inputs t) := by
  rw [sent, upTo_snoc, collect_append, sent, collect_cons, collect_nil, List.append_nil]
  rfl

theorem returned_succ (b : Fin (n + 1)) (t : Nat) :
    returned g inputs b (t + 1) = returned g inputs b t ++ returns g b (stateAt g false inputs t) (inputs t) := by
  rw [returned, upTo_snoc, collect_append, returned, collect_cons, collect_nil, List.append_nil]
  rfl

theorem sent_length (b : Fin (n + 1)) (t : Nat) :
    (sent g inputs b t).length = tally g inputs (takes g · · b) t := by
  induction t with
  | zero => rfl
  | succ t ih =>
      rw [sent_succ, List.length_append, ih, tally_succ, sends]
      cases takes g (stateAt g false inputs t) (inputs t) b <;> rfl

theorem returned_length (b : Fin (n + 1)) (t : Nat) :
    (returned g inputs b t).length = tally g inputs (answers · · b) t := by
  induction t with
  | zero => rfl
  | succ t ih =>
      rw [returned_succ, List.length_append, ih, tally_succ, returns]
      cases answers (stateAt g false inputs t) (inputs t) b <;> rfl

/-- The error device answers every request at the next edge. -/
theorem error_answers (t : Nat) :
    tally g inputs (answers · · (Fin.last n)) (t + 1) = tally g inputs (takes g · · (Fin.last n)) t := by
  have answer : ∀ (s : State m n) (i : Inputs m n), answers s i (Fin.last n) = s.virtualErr := by
    intro s i
    simp [answers, masterIe]
  have take : ∀ (s : State m n) (i : Inputs m n), takes g s i (Fin.last n) = (step g s i).virtualErr := by
    intro s i
    simp [takes, masterIe, step]
  induction t with
  | zero =>
      rw [tally_succ, answer]
      rfl
  | succ t ih => rw [tally_succ, ih, answer, stateAt_succ, ← take, ← tally_succ]

variable {g inputs}

theorem returned_le (honest : Honest g inputs) (b : Fin (n + 1)) (t : Nat) :
    (returned g inputs b t).length ≤ (sent g inputs b t).length := by
  rw [returned_length, sent_length]
  induction b using Fin.lastCases with
  | last =>
      cases t with
      | zero => exact le_rfl
      | succ t =>
          rw [error_answers, tally_succ]
          exact Nat.le_add_right _ _
  | cast b => exact honest b t

end Ledger

/-! ### The requests that wait -/

/-- Who waits has its connection, and all that a slave still has to answer is of the master that it is connected to. -/
structure Ledger (g : Generics n) (inputs : Nat → Inputs m n) (t : Nat) (waits : Fin m → Nat) : Prop where
  balance : ∀ a, tally g inputs (hands g · · a) t = tally g inputs (hears g · · a) t + waits a
  connected : ∀ a, 0 < waits a → ∃ b, (stateAt g false inputs t).matrixOld a b = true
  pending : ∀ b, (sent g inputs b t = returned g inputs b t ∧
      ∀ a, (stateAt g false inputs t).matrixOld a b = true → waits a = 0) ∨
    ∃ a, (stateAt g false inputs t).matrixOld a b = true ∧ 0 < waits a ∧
      sent g inputs b t = returned g inputs b t ++ List.replicate (waits a) (some a)

section Edge

variable {s : State m n} {i : Inputs m n} {a : Fin m} {b : Fin (n + 1)}

theorem sends_granted (unique : Matching (granted g s i)) (connected : granted g s i a b = true) :
    sends g b s i = List.replicate (hands g s i a).toNat (some a) ∧
      returns g b s i = List.replicate (hears g s i a).toNat (some a) := by
  obtain ⟨take, answer⟩ := takes_granted unique connected
  rw [sends, returns, user_granted unique connected, take, answer]
  constructor
  · cases hands g s i a <;> rfl
  · cases hears g s i a <;> rfl

theorem granted_kept (connected : granted g s i a b = true) (cyc : (i.slaveI a).cyc = true) :
    matrixNew g s i a b = true := by
  rw [granted] at connected
  split at connected
  · exact (renewed s.matrixOld i.slaveI).holds connected cyc
  · exact connected

theorem granted_old (connected : s.matrixOld a b = true) (cyc : (i.slaveI a).cyc = true) :
    granted g s i a b = true := by
  rw [granted]
  split
  · exact connected
  · exact (renewed s.matrixOld i.slaveI).holds connected cyc

/-- A request comes from the connection of its slave. -/
theorem none_sends (unique : Matching (granted g s i)) : none ∉ sends g b s i := by
  intro member
  by_cases some : ∃ a, granted g s i a b = true
  · obtain ⟨a, connected⟩ := some
    rw [(sends_granted unique connected).1] at member
    cases List.eq_of_mem_replicate member
  · have free : takes g s i b = false := takes_free fun a => by
      rw [← Bool.not_eq_true]
      exact fun there => some ⟨a, there⟩
    rw [sends, free] at member
    cases member

end Edge

theorem none_sent (inputs : Nat → Inputs m n) (b : Fin (n + 1)) (t : Nat) : none ∉ sent g inputs b t := by
  induction t with
  | zero => exact List.not_mem_nil
  | succ t ih =>
      rw [sent_succ, List.mem_append, not_or]
      exact ⟨ih, none_sends (matching_granted (stateAt_matching false inputs t) (inputs t))⟩

namespace Ledger

variable {inputs : Nat → Inputs m n} {t : Nat} {waits : Fin m → Nat}

theorem zero : Ledger g inputs 0 fun _ => 0 where
  balance _ := rfl
  connected _ positive := absurd positive (Nat.lt_irrefl 0)
  pending _ := .inl ⟨rfl, fun _ _ => rfl⟩

variable (ledger : Ledger g inputs t waits) (patient : Patient g inputs) {a : Fin m}
include ledger patient

theorem waiting (positive : 0 < waits a) : ((inputs t).slaveI a).cyc = true :=
  patient a t (by have := ledger.balance a; omega)

/-- The waiting master is connected to the slave it was connected to. -/
theorem stays {b : Fin (n + 1)} (old : (stateAt g false inputs t).matrixOld a b = true) (positive : 0 < waits a) :
    granted g (stateAt g false inputs t) (inputs t) a b = true :=
  granted_old old (ledger.waiting patient positive)

/-- After the edge too, with its new requests. -/
theorem next (positive : 0 < waits a + (hands g (stateAt g false inputs t) (inputs t) a).toNat) :
    ∃ b, granted g (stateAt g false inputs t) (inputs t) a b = true ∧
      matrixNew g (stateAt g false inputs t) (inputs t) a b = true := by
  by_cases before : 0 < waits a
  · obtain ⟨b, old⟩ := ledger.connected a before
    have there := ledger.stays patient old before
    exact ⟨b, there, granted_kept there (ledger.waiting patient before)⟩
  · have handed : hands g (stateAt g false inputs t) (inputs t) a = true := by
      cases handed : hands g (stateAt g false inputs t) (inputs t) a with
      | true => rfl
      | false =>
          rw [handed] at positive
          exact absurd positive before
    obtain ⟨b, there⟩ := hands_granted handed
    rw [hands, Bool.and_eq_true, Bool.and_eq_true] at handed
    exact ⟨b, there, granted_kept there handed.1.1⟩

/-- What waits at the slave of a master is its own. -/
theorem own {b : Fin (n + 1)} (there : granted g (stateAt g false inputs t) (inputs t) a b = true) :
    sent g inputs b t = returned g inputs b t ++ List.replicate (waits a) (some a) := by
  have unique : Matching (granted g (stateAt g false inputs t) (inputs t)) :=
    matching_granted (stateAt_matching false inputs t) (inputs t)
  rcases ledger.pending b with ⟨same, none⟩ | ⟨a', old, positive, split⟩
  · have nothing : waits a = 0 := by
      by_contra some
      obtain ⟨b', old⟩ := ledger.connected a (Nat.pos_of_ne_zero some)
      have here := ledger.stays patient old (Nat.pos_of_ne_zero some)
      exact some (none a (unique.2 here there ▸ old))
    rw [nothing, List.replicate_zero, List.append_nil, same]
  · rw [unique.1 there (ledger.stays patient old positive)]
    exact split

variable (honest : Honest g inputs)
include honest

theorem heard_le : (hears g (stateAt g false inputs t) (inputs t) a).toNat ≤
    waits a + (hands g (stateAt g false inputs t) (inputs t) a).toNat := by
  cases heard : hears g (stateAt g false inputs t) (inputs t) a with
  | false => exact Nat.zero_le _
  | true =>
      obtain ⟨b, there⟩ := hears_granted heard
      obtain ⟨send, ret⟩ := sends_granted (matching_granted (stateAt_matching false inputs t) (inputs t)) there
      have most := returned_le honest b (t + 1)
      rw [sent_succ, returned_succ, send, ret, ledger.own patient there, heard] at most
      simp only [List.length_append, List.length_replicate] at most
      omega

/-- What one edge does. -/
theorem edge (on : (inputs t).rstN = true) : ∃ waits', Ledger g inputs (t + 1) waits' := by
  have old_unique := stateAt_matching (g := g) false inputs t
  have unique := matching_granted (g := g) old_unique (inputs t)
  have new_unique := matching_new (g := g) old_unique (inputs t)
  have next : (stateAt g false inputs (t + 1)).matrixOld = matrixNew g (stateAt g false inputs t) (inputs t) := by
    rw [stateAt_succ]
    exact if_pos on
  let hd (a : Fin m) := (hands g (stateAt g false inputs t) (inputs t) a).toNat
  let hr (a : Fin m) := (hears g (stateAt g false inputs t) (inputs t) a).toNat
  have most : ∀ a, hr a ≤ waits a + hd a := fun a => ledger.heard_le patient honest
  have moved : ∀ a, 0 < waits a + hd a - hr a → ∃ b, granted g (stateAt g false inputs t) (inputs t) a b = true ∧
      matrixNew g (stateAt g false inputs t) (inputs t) a b = true := fun a positive =>
    ledger.next patient (Nat.lt_of_lt_of_le positive (Nat.sub_le _ _))
  refine ⟨fun a => waits a + hd a - hr a, fun a => ?_, fun a positive => ?_, fun b => ?_⟩
  · have kept : waits a + hd a = hr a + (waits a + hd a - hr a) := (Nat.add_sub_of_le (most a)).symm
    rw [tally_succ, tally_succ, ledger.balance a, Nat.add_assoc, Nat.add_assoc]
    exact congrArg _ kept
  · obtain ⟨b, -, there⟩ := moved a positive
    exact ⟨b, next ▸ there⟩
  · rw [next, sent_succ, returned_succ]
    by_cases some : ∃ a, granted g (stateAt g false inputs t) (inputs t) a b = true
    · obtain ⟨a, there⟩ := some
      have whole : sent g inputs b t ++ sends g b (stateAt g false inputs t) (inputs t) =
          returned g inputs b t ++ returns g b (stateAt g false inputs t) (inputs t) ++
            List.replicate (waits a + hd a - hr a) (Option.some a) := by
        obtain ⟨send, ret⟩ := sends_granted unique there
        rw [send, ret, ledger.own patient there, List.append_assoc, List.append_assoc,
          List.replicate_append_replicate, List.replicate_append_replicate, Nat.add_sub_of_le (most a)]
      by_cases positive : 0 < waits a + hd a - hr a
      · obtain ⟨b', here, there'⟩ := moved a positive
        exact .inr ⟨a, unique.2 here there ▸ there', positive, whole⟩
      · refine .inl ⟨?_, fun a' now => ?_⟩
        · rw [whole, Nat.eq_zero_of_not_pos positive, List.replicate_zero, List.append_nil]
        · by_contra more
          obtain ⟨b', here, there'⟩ := moved a' (Nat.pos_of_ne_zero more)
          obtain rfl := new_unique.2 now there'
          exact positive (unique.1 there here ▸ Nat.pos_of_ne_zero more)
    · have free : ∀ a, granted g (stateAt g false inputs t) (inputs t) a b = false := fun a => by
        rw [← Bool.not_eq_true]
        exact fun there => some ⟨a, there⟩
      have same : sent g inputs b t = returned g inputs b t := by
        rcases ledger.pending b with ⟨same, -⟩ | ⟨a, old, positive, -⟩
        · exact same
        · exact (some ⟨a, ledger.stays patient old positive⟩).elim
      have send : sends g b (stateAt g false inputs t) (inputs t) = [] := by
        rw [sends, takes_free free]
        rfl
      have ret : returns g b (stateAt g false inputs t) (inputs t) = [] := by
        have few := returned_le honest b (t + 1)
        rw [sent_succ, returned_succ, send, same, List.length_append, List.append_nil] at few
        exact List.eq_nil_of_length_eq_zero (by omega)
      refine .inl ⟨by rw [send, ret, same], fun a' now => ?_⟩
      by_contra more
      obtain ⟨b', here, there'⟩ := moved a' (Nat.pos_of_ne_zero more)
      obtain rfl := new_unique.2 now there'
      exact some ⟨a', here⟩

end Ledger

theorem ledger_run (g : Generics n) (inputs : Nat → Inputs m n) (on : ∀ t, (inputs t).rstN = true)
    (patient : Patient g inputs) (honest : Honest g inputs) (t : Nat) : ∃ waits, Ledger g inputs t waits := by
  induction t with
  | zero => exact ⟨_, Ledger.zero⟩
  | succ t ih =>
      obtain ⟨waits, ledger⟩ := ih
      exact ledger.edge patient honest (on t)

/-- If masters keep their cycle until all is answered, and slaves answer no more than they were asked, every answer goes
to the master of the request that it answers, in the order of the requests, whatever the other masters do meanwhile.
The error device is one of the slaves, which answers at the next edge. -/
theorem answers_return (g : Generics n) (inputs : Nat → Inputs m n) (on : ∀ t, (inputs t).rstN = true)
    (patient : Patient g inputs) (honest : Honest g inputs) (t : Nat) :
    (∀ b, returned g inputs b t <+: sent g inputs b t) ∧
      (∀ a, tally g inputs (hears g · · a) t ≤ tally g inputs (hands g · · a) t) ∧
      (∀ b, none ∉ sent g inputs b t) ∧
      tally g inputs (answers · · (Fin.last n)) (t + 1) = tally g inputs (takes g · · (Fin.last n)) t := by
  obtain ⟨waits, ledger⟩ := ledger_run g inputs on patient honest t
  refine ⟨fun b => ?_, fun a => ?_, fun b => none_sent inputs b t, error_answers g inputs t⟩
  · rcases ledger.pending b with ⟨same, -⟩ | ⟨a, -, -, split⟩
    · rw [same]
    · rw [split]
      exact List.prefix_append _ _
  · rw [ledger.balance a]
    exact Nat.le_add_right _ _

theorem pair_honest : Honest pair pairInputs := by
  intro b t
  have taken : takes pair (stateAt pair false pairInputs 0) (pairInputs 0) b.castSucc = true := by
    rw [Subsingleton.elim b 0]
    decide +kernel
  have answered : ∀ k, answers (stateAt pair false pairInputs k) (pairInputs k) b.castSucc = (k == 1) := by
    intro k
    simp [answers, masterIe, pairInputs]
  have least : ∀ t, 1 ≤ tally pair pairInputs (takes pair · · b.castSucc) (t + 1) := by
    intro t
    induction t with
    | zero => rw [tally_succ, taken]; exact le_rfl
    | succ t ih => rw [tally_succ]; omega
  have most : ∀ t, tally pair pairInputs (answers · · b.castSucc) (t + 1) = if t = 0 then 0 else 1 := by
    intro t
    induction t with
    | zero => rw [tally_succ, answered]; rfl
    | succ t ih =>
        rw [tally_succ, ih, answered]
        cases t <;> rfl
  cases t with
  | zero => exact le_rfl
  | succ t =>
      have := least t
      rw [most]
      split <;> omega

theorem answers_return_pair : returned pair pairInputs 0 2 <+: sent pair pairInputs 0 2 ∧
    tally pair pairInputs (hears pair · · 0) 2 ≤ tally pair pairInputs (hands pair · · 0) 2 := by
  obtain ⟨order, counts, -⟩ := answers_return pair pairInputs (fun _ => rfl) (fun _ _ _ => rfl) pair_honest 2
  exact ⟨order 0, counts 0⟩

end WrCores.Wishbone.Crossbar
