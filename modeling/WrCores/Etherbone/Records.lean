import Mathlib.Data.List.Basic
import WrCores.Etherbone.SlaveFsm

/-!
What an Etherbone stream means. A record writes words from an address on and then reads from addresses that it lists;
a packet is a header and records. The slave performs the records of a packet in order, and the words that it pushes are
the words of a packet again, which writes what was read to the address where the reader wants it.
-/

namespace WrCores.Etherbone

open Clocked SlaveFsm

structure Record where
  hdr : RecHdr
  wrBase : Word
  writes : List Word
  rdBase : Word
  reads : List Word
  wrCount : hdr.wrCnt.toNat = writes.length
  rdCount : hdr.rdCnt.toNat = reads.length

namespace RecHdr

variable (h : RecHdr)

def busSel : BitVec 4 := h.sel.extractLsb 3 0

def next (adr : Word) : Word := if h.wrFifo then adr else adr + 4

def writeOps : Word → List Word → List Op
  | _, [] => []
  | adr, d :: ds => (if h.wcaCfg then [] else [.write adr d h.busSel]) ++ writeOps (h.next adr) ds

def readOps (reads : List Word) : List Op := if h.rcaCfg then [] else reads.map fun adr => .read adr h.busSel

/-- The answer to the writes is padding; the header of the answer to the reads stands at its end. -/
def writeEntries : Word → List Word → List Entry
  | _, [] => []
  | adr, _ :: ds =>
      let pad : Word := if ds = [] then fFormatRec (fReplyRec h) else 0
      (if h.wcaCfg then .cfgIgn pad (cfgAdr adr) else .wbmIgn pad) :: writeEntries (h.next adr) ds

def readEntries (reads : List Word) : List Entry :=
  reads.map fun adr => if h.rcaCfg then .cfgReq (cfgAdr adr) else .wbmReq

end RecHdr

namespace Record

variable (r : Record)

def encode : List Word :=
  fFormatRec r.hdr :: (if r.writes = [] then [] else r.wrBase :: r.writes) ++
    if r.reads = [] then [] else r.rdBase :: r.reads

/-- What the record does on the bus. -/
def ops : List Op := r.hdr.writeOps r.wrBase r.writes ++ r.hdr.readOps r.reads

def entries : List Entry :=
  (if r.writes = [] then [.passOn (fFormatRec (fReplyRec r.hdr))]
    else .passOn 0 :: .passOn 0 :: r.hdr.writeEntries r.wrBase r.writes) ++
    if r.reads = [] then [] else .passOn r.rdBase :: r.hdr.readEntries r.reads

/-- Which words of the record make a request. -/
def onBus : List Bool := r.writes.map (fun _ => !r.hdr.wcaCfg) ++ r.reads.map fun _ => !r.hdr.rcaCfg

end Record

section Serve

/-- A part of a stream, from one state to another. -/
structure Serves (s : SlaveFsm) (words : List Word) (entries : List Entry) (ops : List Op) (s' : SlaveFsm) : Prop where
  pushes : collect act pushes s (words.map .word) = entries
  asks : collect act asks s (words.map .word) = ops
  ends : run act s (words.map .word) = s'

theorem Serves.none (s : SlaveFsm) : Serves s [] [] [] s := ⟨rfl, rfl, rfl⟩

theorem Serves.cons {s s' : SlaveFsm} {d : Word} {words : List Word} {entries entries' : List Entry}
    {ops ops' : List Op}
    (pushed : s.pushes (.word d) = entries) (asked : s.asks (.word d) = ops)
    (rest : Serves (s.act (.word d)) words entries' ops' s') :
    Serves s (d :: words) (entries ++ entries') (ops ++ ops') s' where
  pushes := by rw [List.map_cons, collect_cons, pushed, rest.pushes]
  asks := by rw [List.map_cons, collect_cons, asked, rest.asks]
  ends := rest.ends

theorem Serves.append {s s' s'' : SlaveFsm} {words words' : List Word} {entries entries' : List Entry}
    {ops ops' : List Op} (first : Serves s words entries ops s') (second : Serves s' words' entries' ops' s'') :
    Serves s (words ++ words') (entries ++ entries') (ops ++ ops') s'' where
  pushes := by rw [List.map_append, collect_append, first.ends, first.pushes, second.pushes]
  asks := by rw [List.map_append, collect_append, first.ends, first.asks, second.asks]
  ends := by rw [List.map_append, run_append, first.ends, second.ends]

variable (s : SlaveFsm) (h : RecHdr) (d : Word)

/-- One write, with `c` of them left. -/
theorem act_write {c : BitVec 8} (here : s.rState = .write) (hdr : s.rRxRecHdr = { h with wrCnt := c })
    (reply : s.rTxRecHdr = fReplyRec h) :
    let pad : Word := if c = 1 then fFormatRec (fReplyRec h) else 0
    let s' := s.act (.word d)
    s.pushes (.word d) = [if h.wcaCfg then .cfgIgn pad (cfgAdr s.rWrAdr) else .wbmIgn pad] ∧
      s.asks (.word d) = (if h.wcaCfg then [] else [.write s.rWrAdr d h.busSel]) ∧
      s'.rState = (if c = 1 then if h.rdCnt = 0 then .cycHdr else .rdAdr else .write) ∧
      s'.rWrAdr = h.next s.rWrAdr ∧ s'.rRxRecHdr = { h with wrCnt := c - 1 } ∧ s'.rTxRecHdr = fReplyRec h ∧
      s'.rMasterCyc = if c = 1 ∧ h.rdCnt = 0 then s.rMasterCyc && !h.dropCyc else s.rMasterCyc || !h.wcaCfg := by
  have does : s.perform (.word d) = s.quiet.acceptWrite d := by
    simp [perform, accept, quiet, lower, here]
  simp only [pushes, asks, act, does, acceptWrite, quiet, lower, SlaveFsm.pass, pushed, asked, entry, op, masterSel, hdr,
    reply, RecHdr.next, RecHdr.busSel]
  by_cases last : c = 1 <;> by_cases none : h.rdCnt = 0 <;> cases h.wcaCfg <;> simp [last, none]

theorem act_read {c : BitVec 8} (here : s.rState = .read) (hdr : s.rRxRecHdr = { h with wrCnt := 0, rdCnt := c }) :
    let s' := s.act (.word d)
    s.pushes (.word d) = [if h.rcaCfg then .cfgReq (cfgAdr d) else .wbmReq] ∧
      s.asks (.word d) = (if h.rcaCfg then [] else [.read d h.busSel]) ∧
      s'.rState = (if c = 1 then .cycHdr else .read) ∧ s'.rRxRecHdr = { h with wrCnt := 0, rdCnt := c - 1 } ∧
      s'.rMasterCyc = if c = 1 then s.rMasterCyc && !h.dropCyc else s.rMasterCyc || !h.rcaCfg := by
  have does : s.perform (.word d) = s.quiet.acceptRead d := by
    simp [perform, accept, quiet, lower, here]
  simp only [pushes, asks, act, does, acceptRead, quiet, lower, pushed, asked, entry, op, masterSel, hdr, RecHdr.busSel]
  by_cases last : c = 1 <;> cases h.rcaCfg <;> simp [last]

theorem count_down {c : BitVec 8} {n : Nat} (left : c.toNat = n + 1) (more : n ≠ 0) :
    (c - 1).toNat = n ∧ c ≠ 1 := by
  refine ⟨?_, ?_⟩
  · rw [BitVec.toNat_sub_of_le (by simp [BitVec.le_def]; omega)]
    simp [left]
  · rintro rfl
    exact more (Nat.succ.inj left).symm

/-- The writes of a record. -/
theorem serve_writes (ds : List Word) (some : ds ≠ []) {c : BitVec 8} (here : s.rState = .write)
    (hdr : s.rRxRecHdr = { h with wrCnt := c }) (left : c.toNat = ds.length) (reply : s.rTxRecHdr = fReplyRec h) :
    ∃ s', Serves s ds (h.writeEntries s.rWrAdr ds) (h.writeOps s.rWrAdr ds) s' ∧
      s'.rState = (if h.rdCnt = 0 then .cycHdr else .rdAdr) ∧ s'.rRxRecHdr = { h with wrCnt := 0 } ∧
      s'.rMasterCyc =
        if h.rdCnt = 0 then (s.rMasterCyc || (ds.map fun _ => !h.wcaCfg).dropLast.any id) && !h.dropCyc
        else s.rMasterCyc || (ds.map fun _ => !h.wcaCfg).any id := by
  induction ds generalizing s c with
  | nil => exact absurd rfl some
  | cons d ds ih =>
      obtain ⟨pushed, asked, state, adr, hdr', tx, cyc⟩ := act_write s h d here hdr reply
      rw [List.length_cons] at left
      by_cases more : ds = []
      · subst more
        obtain rfl : c = 1 := BitVec.eq_of_toNat_eq left
        refine ⟨_, ?_, state, hdr', by simp [cyc]⟩
        simpa [RecHdr.writeEntries, RecHdr.writeOps] using Serves.cons pushed asked (.none _)
      · obtain ⟨fewer, go⟩ := count_down left (mt List.length_eq_zero_iff.mp more)
        simp only [if_neg go] at pushed state
        rw [if_neg (fun last => go last.1)] at cyc
        obtain ⟨s', rest, state', hdr'', cyc'⟩ := ih (s.act (.word d)) more state hdr' fewer tx
        have serves := Serves.cons pushed asked rest
        refine ⟨s', ?_, state', hdr'', ?_⟩
        · rw [adr] at serves
          rw [RecHdr.writeEntries, RecHdr.writeOps, if_neg more]
          exact serves
        · rw [cyc', cyc, List.map_cons, List.dropLast_cons_of_ne_nil (by simpa using more), List.any_cons,
            List.any_cons, Bool.or_assoc, Bool.or_assoc]
          rfl

/-- The reads of a record. -/
theorem serve_reads (ds : List Word) (some : ds ≠ []) {c : BitVec 8} (here : s.rState = .read)
    (hdr : s.rRxRecHdr = { h with wrCnt := 0, rdCnt := c }) (left : c.toNat = ds.length) :
    ∃ s', Serves s ds (h.readEntries ds) (h.readOps ds) s' ∧ s'.rState = .cycHdr ∧
      s'.rMasterCyc = ((s.rMasterCyc || (ds.map fun _ => !h.rcaCfg).dropLast.any id) && !h.dropCyc) := by
  induction ds generalizing s c with
  | nil => exact absurd rfl some
  | cons d ds ih =>
      obtain ⟨pushed, asked, state, hdr', cyc⟩ := act_read s h d here hdr
      rw [List.length_cons] at left
      by_cases more : ds = []
      · subst more
        obtain rfl : c = 1 := BitVec.eq_of_toNat_eq left
        refine ⟨_, ?_, state, by simp [cyc]⟩
        have serves := Serves.cons pushed asked (.none _)
        cases cfg : h.rcaCfg <;> simpa [RecHdr.readEntries, RecHdr.readOps, cfg] using serves
      · obtain ⟨fewer, go⟩ := count_down left (mt List.length_eq_zero_iff.mp more)
        rw [if_neg go] at state cyc
        obtain ⟨s', rest, state', cyc'⟩ := ih (s.act (.word d)) more state hdr' fewer
        have serves := Serves.cons pushed asked rest
        refine ⟨s', ?_, state', ?_⟩
        · cases cfg : h.rcaCfg <;> simpa [RecHdr.readEntries, RecHdr.readOps, cfg] using serves
        · rw [cyc', cyc, List.map_cons, List.dropLast_cons_of_ne_nil (by simpa using more), List.any_cons,
            Bool.or_assoc]
          rfl

theorem act_recHdr (here : s.rState = .cycHdr) :
    let s' := s.act (.word (fFormatRec h))
    s.pushes (.word (fFormatRec h)) = [.passOn (if h.wrCnt ≠ 0 then 0 else fFormatRec (fReplyRec h))] ∧
      s.asks (.word (fFormatRec h)) = [] ∧
      s'.rState = (if h.wrCnt ≠ 0 then .wrAdr else if h.rdCnt ≠ 0 then .rdAdr else .cycHdr) ∧
      s'.rRxRecHdr = h ∧ s'.rTxRecHdr = fReplyRec h ∧
      s'.rMasterCyc = if h.wrCnt = 0 ∧ h.rdCnt = 0 then s.rMasterCyc && !h.dropCyc else s.rMasterCyc := by
  have does : s.perform (.word (fFormatRec h)) = s.quiet.acceptRecHdr (fFormatRec h) := by
    simp [perform, accept, quiet, lower, here]
  simp [pushes, asks, act, does, acceptRecHdr, fParseRec_format, quiet, lower, SlaveFsm.pass, pushed, asked, entry]

theorem act_wrAdr (here : s.rState = .wrAdr) :
    let s' := s.act (.word d)
    s.pushes (.word d) = [.passOn 0] ∧ s.asks (.word d) = [] ∧ s'.rState = .write ∧ s'.rWrAdr = d ∧
      s'.rRxRecHdr = s.rRxRecHdr ∧ s'.rTxRecHdr = s.rTxRecHdr ∧ s'.rMasterCyc = s.rMasterCyc := by
  simp [pushes, asks, act, perform, accept, here, quiet, lower, SlaveFsm.pass, pushed, asked, entry]

theorem act_rdAdr (here : s.rState = .rdAdr) :
    let s' := s.act (.word d)
    s.pushes (.word d) = [.passOn d] ∧ s.asks (.word d) = [] ∧ s'.rState = .read ∧
      s'.rRxRecHdr = s.rRxRecHdr ∧ s'.rMasterCyc = s.rMasterCyc := by
  simp [pushes, asks, act, perform, accept, here, quiet, lower, SlaveFsm.pass, pushed, asked, entry]

theorem Record.counts (r : Record) : (r.hdr.wrCnt = 0 ↔ r.writes = []) ∧ (r.hdr.rdCnt = 0 ↔ r.reads = []) := by
  rw [← List.length_eq_zero_iff, ← List.length_eq_zero_iff, ← r.wrCount, ← r.rdCount]
  exact ⟨BitVec.toNat_inj.symm, BitVec.toNat_inj.symm⟩

theorem serve_readback (r : Record) (some : r.reads ≠ []) (here : s.rState = .rdAdr)
    (hdr : s.rRxRecHdr = { r.hdr with wrCnt := 0 }) :
    ∃ s', Serves s (r.rdBase :: r.reads) (.passOn r.rdBase :: r.hdr.readEntries r.reads) (r.hdr.readOps r.reads) s' ∧
      s'.rState = .cycHdr ∧
      s'.rMasterCyc =
        ((s.rMasterCyc || (r.reads.map fun _ => !r.hdr.rcaCfg).dropLast.any id) && !r.hdr.dropCyc) := by
  obtain ⟨pushed, asked, state, hdr', cyc⟩ := act_rdAdr s r.rdBase here
  obtain ⟨s', reads, state', cyc'⟩ := serve_reads _ r.hdr r.reads some state (hdr'.trans hdr) r.rdCount
  exact ⟨s', .cons pushed asked reads, state', by rw [cyc', cyc]⟩

/-- A record does what it says, and keeps the cycle as it says, if a word before its last one has made a request. -/
theorem serve_record (r : Record) (here : s.rState = .cycHdr) :
    ∃ s', Serves s r.encode r.entries r.ops s' ∧ s'.rState = .cycHdr ∧
      s'.rMasterCyc = ((s.rMasterCyc || r.onBus.dropLast.any id) && !r.hdr.dropCyc) := by
  obtain ⟨pushed, asked, state, hdr, tx, cyc⟩ := act_recHdr s r.hdr here
  obtain ⟨noWrites, noReads⟩ := r.counts
  simp only [Record.encode, Record.entries, Record.ops, Record.onBus]
  by_cases writes : r.writes = []
  · have zero := noWrites.mpr writes
    simp only [zero, ne_eq, not_true_eq_false, if_false] at pushed state
    by_cases reads : r.reads = []
    · have serves := Serves.cons pushed asked (.none _)
      refine ⟨_, by simpa [writes, reads, RecHdr.writeOps, RecHdr.readOps] using serves, ?_, ?_⟩
      · rw [state, if_neg (not_not.mpr (noReads.mpr reads))]
      · rw [cyc, if_pos ⟨zero, noReads.mpr reads⟩]
        simp [writes, reads]
    · rw [if_pos (mt noReads.mp reads)] at state
      obtain ⟨s', serves, state', cyc'⟩ := serve_readback _ r reads state (by rw [hdr]; simp [← zero])
      refine ⟨s', by simpa [writes, reads, RecHdr.writeOps] using Serves.cons pushed asked serves, state', ?_⟩
      rw [cyc', cyc, if_neg fun both => reads (noReads.mp both.2)]
      simp [writes]
  · have nonzero := mt noWrites.mp writes
    rw [if_pos nonzero] at pushed state
    rw [if_neg fun both => nonzero both.1] at cyc
    obtain ⟨pushed', asked', state', adr, hdr', tx', cyc'⟩ := act_wrAdr _ r.wrBase state
    obtain ⟨s₂, serves, state₂, hdr₂, cyc₂⟩ :=
      serve_writes _ r.hdr r.writes writes state' (hdr'.trans hdr) r.wrCount (tx'.trans tx)
    rw [adr] at serves
    have front := Serves.cons pushed asked (.cons pushed' asked' serves)
    by_cases reads : r.reads = []
    · rw [if_pos (noReads.mpr reads)] at state₂ cyc₂
      refine ⟨s₂, by simpa [writes, reads, RecHdr.readOps] using front, state₂, ?_⟩
      rw [cyc₂, cyc', cyc]
      simp [reads]
    · rw [if_neg (mt noReads.mp reads)] at state₂ cyc₂
      obtain ⟨s', back, state', cyc''⟩ := serve_readback s₂ r reads state₂ hdr₂
      refine ⟨s', by simpa [writes, reads] using front.append back, state', ?_⟩
      rw [cyc'', cyc₂, cyc', cyc, List.dropLast_append_of_ne_nil (by simpa using reads), List.any_append, Bool.or_assoc]

end Serve

end WrCores.Etherbone
