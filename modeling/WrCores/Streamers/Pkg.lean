import Mathlib.Data.BitVec
import Mathlib.Tactic.IntervalCases
import WrCores.Fabric.SourceSink

/-!
What the two streamer receivers share: the configuration record of streamers_pkg.vhd,
the words they put into their output buffer, and the address filter. The filter is the
same text in xrx_streamer.vhd and xrx_streamer_light.vhd: six tests, one for each
16-bit word of the two addresses. A data word of `16 * k` bits is `k` lanes of 16 bits,
lane 0 the least significant.
-/

namespace WrCores.Streamers

structure RxStreamerCfg where
  macLocal : BitVec 48
  macRemote : BitVec 48
  ethertype : BitVec 16
  acceptBroadcasts : Bool
  filterRemote : Bool
  fixedLatency : BitVec 28
  deriving DecidableEq, Repr

structure TxStreamerCfg where
  macLocal : BitVec 48
  macTarget : BitVec 48
  ethertype : BitVec 16
  qtagEna : Bool
  qtagVid : BitVec 12
  qtagPrio : BitVec 3
  deriving DecidableEq, Repr

/-- `c_rx_streamer_cfg_default`. -/
def cRxStreamerCfgDefault : RxStreamerCfg where
  macLocal := 0
  macRemote := 0
  ethertype := 0xdbff
  acceptBroadcasts := true
  filterRemote := false
  fixedLatency := 0

/-- `c_tx_streamer_cfg_default`. -/
def cTxStreamerCfgDefault : TxStreamerCfg where
  macLocal := 0
  macTarget := 0x3c2c30a6a8b1
  ethertype := 0xdbff
  qtagEna := false
  qtagVid := 0
  qtagPrio := 0

abbrev Lanes (k : Nat) := Fin k → BitVec 16

/-- An entry of the receiver's output buffer, `fifo_din`. -/
structure RxWord (k : Nat) where
  first : Bool
  last : Bool
  data : Lanes k
  deriving DecidableEq

/-- `fab.dvalid`: a data word of the fabric that is not half a word. -/
def fabDvalid (fab : Fabric.Decoded) : Bool :=
  fab.dvalid && fab.addr == Fabric.cWrfData && !fab.bytesel

/-- What reaches a receiver's FSM in one cycle, `fsm_in` of type `t_pipe`. -/
structure Pipe where
  data : BitVec 16
  dvalid : Bool
  sof : Bool
  eof : Bool
  deriving DecidableEq, Repr

/-- `pack_data` with one lane replaced. -/
def setLane {k : Nat} (pack : Lanes k) (n : Nat) (data : BitVec 16) : Lanes k :=
  fun lane => if lane.val = n then data else pack lane

/-- `pack_data` with `fsm_in.data` in the uppermost lane. -/
def topLane {k : Nat} (pack : Lanes k) (data : BitVec 16) : Lanes k :=
  fun lane => if lane.val + 1 = k then data else pack lane

/-- Word `n` of a MAC address: 47 downto 32, 31 downto 16, 15 downto 0. -/
def macWord (mac : BitVec 48) (n : Nat) : BitVec 16 := mac.extractLsb' (32 - 16 * n) 16

namespace RxStreamerCfg

variable (cfg : RxStreamerCfg)

/-- The test of a word of the destination address. In VHDL the relations bind tighter
than `nor`, so both comparisons are operands of it. -/
def refusesLocal (n : Nat) (data : BitVec 16) : Bool :=
  !(data != macWord cfg.macLocal n || (cfg.acceptBroadcasts && data != 0xffff#16))

def refusesRemote (n : Nat) (data : BitVec 16) : Bool :=
  data != macWord cfg.macRemote n && cfg.filterRemote

/-- The test that `count` selects, for the six address words. -/
def refuses (count : Nat) (data : BitVec 16) : Bool :=
  match count with
  | 0 => cfg.refusesLocal 0 data
  | 1 => cfg.refusesLocal 1 data
  | 2 => cfg.refusesLocal 2 data
  | 3 => cfg.refusesRemote 0 data
  | 4 => cfg.refusesRemote 1 data
  | 5 => cfg.refusesRemote 2 data
  | _ => false

/-- The address words of a frame that the tests let through. -/
def Passes (words : List (BitVec 16)) : Prop :=
  ∀ n < 6, ∀ data ∈ words[n]?, cfg.refuses n data = false

instance (words : List (BitVec 16)) : Decidable (cfg.Passes words) :=
  decidable_of_iff ((List.range 6).all (fun n => (words[n]?).all (!cfg.refuses n ·)) = true) <| by
    simp [Passes, Option.all_eq_true]

/-- The filter as it is documented. -/
structure Wanted (words : List (BitVec 16)) : Prop where
  destination : (∀ n < 3, words[n]? = some (macWord cfg.macLocal n)) ∨
    (cfg.acceptBroadcasts = true ∧ ∀ n < 3, words[n]? = some 0xffff#16)
  source : cfg.filterRemote = true → ∀ n < 3, words[n + 3]? = some (macWord cfg.macRemote n)

/-- Where the tests and the documentation agree. A frame for this station must come
with broadcasts accepted and without a word of all ones in its address; a broadcast
must not meet such a word in the local address; and an address that is neither must
meet the local one in some word, of all ones if broadcasts are accepted. -/
def Agrees (words : List (BitVec 16)) : Prop :=
  (cfg.filterRemote = true ∧ ∃ n < 3, words[n + 3]? ≠ some (macWord cfg.macRemote n)) ∨
  ((∀ n < 3, words[n]? = some (macWord cfg.macLocal n)) ∧ cfg.acceptBroadcasts = true ∧
    ∀ n < 3, words[n]? ≠ some 0xffff#16) ∨
  (cfg.acceptBroadcasts = true ∧ (∀ n < 3, words[n]? = some 0xffff#16) ∧
    ∀ n < 3, macWord cfg.macLocal n ≠ 0xffff#16) ∨
  ((∃ n < 3, words[n]? ≠ some (macWord cfg.macLocal n)) ∧
    ¬ (cfg.acceptBroadcasts = true ∧ ∀ n < 3, words[n]? = some 0xffff#16) ∧
    ∃ n < 3, words[n]? = some (macWord cfg.macLocal n) ∧
      (cfg.acceptBroadcasts = true → words[n]? = some 0xffff#16))

/-- The same for the words that are still to come when `n` have been let through. -/
def PassesFrom (n : Nat) (words : List (BitVec 16)) : Prop :=
  ∀ m, ∀ data ∈ words[m]?, n + m < 6 → cfg.refuses (n + m) data = false

theorem passes_iff_from (words : List (BitVec 16)) : cfg.Passes words ↔ cfg.PassesFrom 0 words := by
  simp only [Passes, PassesFrom, Nat.zero_add]
  exact ⟨fun passes m data here less => passes m less data here,
    fun passes m less data here => passes m data here less⟩

theorem passesFrom_cons (n : Nat) (data : BitVec 16) (rest : List (BitVec 16)) :
    cfg.PassesFrom n (data :: rest) ↔
      (n < 6 → cfg.refuses n data = false) ∧ cfg.PassesFrom (n + 1) rest := by
  constructor
  · intro passes
    refine ⟨passes 0 data rfl, fun m d here => ?_⟩
    rw [Nat.add_assoc, Nat.add_comm 1 m]
    exact passes (m + 1) d (by simpa using here)
  · rintro ⟨head, tail⟩ m d here less
    cases m with
    | zero =>
        obtain rfl : data = d := by simpa using here
        exact head less
    | succ m =>
        rw [Nat.add_comm m 1, ← Nat.add_assoc] at less ⊢
        exact tail m d (by simpa using here) less

theorem passesFrom_six (words : List (BitVec 16)) : cfg.PassesFrom 6 words :=
  fun _ _ _ less => by omega

theorem forall_lt_three {P : Nat → Prop} : (∀ n < 3, P n) ↔ P 0 ∧ P 1 ∧ P 2 := by
  constructor
  · intro all
    exact ⟨all 0 (by decide), all 1 (by decide), all 2 (by decide)⟩
  · rintro ⟨zero, one, two⟩ n less
    interval_cases n <;> assumption

theorem exists_lt_three {P : Nat → Prop} : (∃ n < 3, P n) ↔ P 0 ∨ P 1 ∨ P 2 := by
  constructor
  · rintro ⟨n, less, holds⟩
    interval_cases n <;> simp [holds]
  · rintro (zero | one | two)
    exacts [⟨0, by decide, zero⟩, ⟨1, by decide, one⟩, ⟨2, by decide, two⟩]

theorem passes_cons (d0 d1 d2 s0 s1 s2 : BitVec 16) (rest : List (BitVec 16)) :
    cfg.Passes (d0 :: d1 :: d2 :: s0 :: s1 :: s2 :: rest) ↔
      (cfg.refusesLocal 0 d0 = false ∧ cfg.refusesLocal 1 d1 = false ∧
        cfg.refusesLocal 2 d2 = false) ∧
      (cfg.refusesRemote 0 s0 = false ∧ cfg.refusesRemote 1 s1 = false ∧
        cfg.refusesRemote 2 s2 = false) := by
  constructor
  · intro passes
    exact ⟨⟨passes 0 (by decide) d0 rfl, passes 1 (by decide) d1 rfl, passes 2 (by decide) d2 rfl⟩,
      passes 3 (by decide) s0 rfl, passes 4 (by decide) s1 rfl, passes 5 (by decide) s2 rfl⟩
  · rintro ⟨⟨local0, local1, local2⟩, remote0, remote1, remote2⟩ n less
    interval_cases n <;> simp_all [refuses]

theorem wanted_iff (words : List (BitVec 16)) :
    cfg.Wanted words ↔
      ((∀ n < 3, words[n]? = some (macWord cfg.macLocal n)) ∨
        (cfg.acceptBroadcasts = true ∧ ∀ n < 3, words[n]? = some 0xffff#16)) ∧
      (cfg.filterRemote = true → ∀ n < 3, words[n + 3]? = some (macWord cfg.macRemote n)) :=
  ⟨fun wanted => ⟨wanted.destination, wanted.source⟩, fun both => ⟨both.1, both.2⟩⟩

/-- The tests decide as documented on exactly the frames that `Agrees` describes. -/
theorem passes_wanted_iff (words : List (BitVec 16)) (long : 6 ≤ words.length) :
    (cfg.Passes words ↔ cfg.Wanted words) ↔ cfg.Agrees words := by
  match words, long with
  | d0 :: d1 :: d2 :: s0 :: s1 :: s2 :: rest, _ =>
      rw [passes_cons, wanted_iff, Agrees]
      simp only [forall_lt_three, exists_lt_three, refusesLocal, refusesRemote,
        List.getElem?_cons_zero, List.getElem?_cons_succ, Option.some.injEq]
      cases cfg.acceptBroadcasts <;> cases cfg.filterRemote <;> grind

end RxStreamerCfg

end WrCores.Streamers
