import WrCores.Etherbone.Records

/-!
An Etherbone stream is a header, the word of a probe if the header asks for one, and records; its end closes the
packet. What the slave does with a run of packets does not depend on what stalls it.
-/

namespace WrCores.Etherbone

open Clocked SlaveFsm

/-- A packet that the slave serves. -/
structure Packet where
  hdr : EbHdr
  probeId : Word
  records : List Record
  magic : hdr.magic = cEbMagic
  ver : hdr.ver = cEbVer
  size : if hdr.probe then hdr.addrSize.getLsbD 2 ∧ hdr.dataSize.getLsbD 2
    else hdr.addrSize = 0x4 ∨ hdr.dataSize = 0x4

/-- Whether the cycle is held behind a record: the last word of a record does not raise it. -/
def Record.hold (cyc : Bool) (r : Record) : Bool := (cyc || r.onBus.dropLast.any id) && !r.hdr.dropCyc

namespace Packet

variable (p : Packet)

def encode : List Word :=
  fFormatEb p.hdr :: (if p.hdr.probe then [p.probeId] else []) ++ p.records.flatMap Record.encode

def events : List Event := p.encode.map .word ++ [.ending]

def ops : List Op := p.records.flatMap Record.ops

/-- A header that wants no answer skips one. -/
def opening : Entry := if p.hdr.noResponse then .skipTx else .passTx (fFormatEb (fReplyEb p.hdr))

def answers : List Entry :=
  p.opening :: (if p.hdr.probe then [.passOn p.probeId] else []) ++ p.records.flatMap Record.entries

def entries : List Entry := p.answers ++ [.dropTx]

end Packet

/-- A write and a read. -/
def Packet.ask : Packet where
  hdr := { cEbInit with noResponse := false }
  probeId := 0
  records := [{
    hdr := { cRecInit with sel := 0xf, wrCnt := 1, rdCnt := 1 }
    wrBase := 0x100
    writes := [7]
    rdBase := 0x8000
    reads := [0x104]
    wrCount := rfl
    rdCount := rfl }]
  magic := rfl
  ver := rfl
  size := .inl rfl

section Serve

variable (s : SlaveFsm) (p : Packet)

theorem act_ebHdr (here : s.rState = .ebHdr) :
    let s' := s.act (.word (fFormatEb p.hdr))
    s.pushes (.word (fFormatEb p.hdr)) = [p.opening] ∧ s.asks (.word (fFormatEb p.hdr)) = [] ∧
      s'.rState = (if p.hdr.probe then .probeId else .cycHdr) ∧ s'.rMasterCyc = s.rMasterCyc := by
  have does : s.perform (.word (fFormatEb p.hdr)) = s.quiet.acceptEbHdr (fFormatEb p.hdr) := by
    simp [perform, accept, quiet, lower, here]
  have size := p.size
  simp only [pushes, asks, act, does, acceptEbHdr, fParseEb_format, if_pos (And.intro p.magic p.ver), Packet.opening]
  cases p.hdr.noResponse <;> cases probe : p.hdr.probe <;>
    simp_all [SlaveFsm.pass, quiet, lower, pushed, asked, entry]

theorem act_probeId (d : Word) (here : s.rState = .probeId) :
    let s' := s.act (.word d)
    s.pushes (.word d) = [.passOn d] ∧ s.asks (.word d) = [] ∧ s'.rState = .cycHdr ∧
      s'.rMasterCyc = s.rMasterCyc := by
  simp [pushes, asks, act, perform, accept, here, quiet, lower, SlaveFsm.pass, pushed, asked, entry]

theorem serve_records (rs : List Record) (here : s.rState = .cycHdr) :
    ∃ s', Serves s (rs.flatMap Record.encode) (rs.flatMap Record.entries) (rs.flatMap Record.ops) s' ∧
      s'.rState = .cycHdr ∧ s'.rMasterCyc = rs.foldl Record.hold s.rMasterCyc := by
  induction rs generalizing s with
  | nil => exact ⟨s, .none s, here, rfl⟩
  | cons r rs ih =>
      obtain ⟨s', serves, state, cyc⟩ := serve_record s r here
      obtain ⟨s'', rest, state', cyc'⟩ := ih s' state
      exact ⟨s'', serves.append rest, state', by rw [cyc', cyc]; rfl⟩

theorem serve_words (here : s.rState = .ebHdr) : ∃ s', Serves s p.encode p.answers p.ops s' ∧
    s'.rState = .cycHdr ∧ s'.rMasterCyc = p.records.foldl Record.hold s.rMasterCyc := by
  obtain ⟨pushed, asked, state, cyc⟩ := act_ebHdr s p here
  rw [Packet.encode, Packet.answers, Packet.ops]
  cases probe : p.hdr.probe with
  | false =>
      rw [probe] at state
      obtain ⟨s', serves, state', cyc'⟩ := serve_records _ p.records state
      exact ⟨s', .cons pushed asked serves, state', by rw [cyc', cyc]⟩
  | true =>
      rw [probe] at state
      obtain ⟨pushed', asked', state', cyc'⟩ := act_probeId _ p.probeId state
      obtain ⟨s', serves, state'', cyc''⟩ := serve_records _ p.records state'
      exact ⟨s', .cons pushed asked (.cons pushed' asked' serves), state'', by rw [cyc'', cyc', cyc]⟩

theorem serve_packet (here : s.rState = .ebHdr) : collect act pushes s p.events = p.entries ∧
    collect act asks s p.events = p.ops ∧ (run act s p.events).rState = .ebHdr ∧
      (run act s p.events).rMasterCyc = false := by
  obtain ⟨s', serves, -⟩ := serve_words s p here
  simp only [Packet.events, Packet.entries, collect_append, run_append, serves.pushes, serves.asks, serves.ends]
  simp [collect_cons, pushes, asks, act, perform, terminate, quiet, lower, pushed, asked, entry]

theorem serve_packets (packets : List Packet) (here : s.rState = .ebHdr) :
    collect act pushes s (packets.flatMap Packet.events) = packets.flatMap Packet.entries ∧
      collect act asks s (packets.flatMap Packet.events) = packets.flatMap Packet.ops ∧
      (run act s (packets.flatMap Packet.events)).rState = .ebHdr ∧
      (s.rMasterCyc = false → (run act s (packets.flatMap Packet.events)).rMasterCyc = false) := by
  induction packets generalizing s with
  | nil => exact ⟨rfl, rfl, here, id⟩
  | cons p packets ih =>
      obtain ⟨pushed, asked, state, cyc⟩ := serve_packet s p here
      obtain ⟨pushed', asked', state', cyc'⟩ := ih _ state
      simp only [List.flatMap_cons, collect_append, run_append, pushed, asked, pushed', asked', state', true_and]
      exact fun _ => cyc' cyc

end Serve

namespace SlaveFsm

variable (inputs : List In)

theorem pushed_run : collect step (fun s i => (s.step i).pushed) reset inputs =
    collect act pushes reset (collect step events reset inputs) :=
  simulates.collect_run (fun s i _ => s.pushed_step i) inv_reset inputs

theorem asked_run : collect step (fun s i => (s.step i).asked) reset inputs =
    collect act asks reset (collect step events reset inputs) :=
  simulates.collect_run (fun s i _ => s.asked_step i) inv_reset inputs

/-- Whatever stalls it, and wherever the run stops, the slave makes the requests of the packets in their order, and
pushes what answers them. -/
theorem requests_performed (packets : List Packet) (rest : List Event)
    (stream : collect step events reset inputs ++ rest = packets.flatMap Packet.events) :
    collect step taken reset inputs ++ (run step reset inputs).pending <+: packets.flatMap Packet.ops ∧
      collect step (fun s i => (s.step i).pushed) reset inputs <+: packets.flatMap Packet.entries ∧
      (rest = [] →
        collect step taken reset inputs ++ (run step reset inputs).pending = packets.flatMap Packet.ops ∧
        collect step (fun s i => (s.step i).pushed) reset inputs = packets.flatMap Packet.entries) := by
  obtain ⟨pushes', asks', -⟩ := serve_packets reset packets rfl
  rw [← stream, collect_append] at pushes' asks'
  have requests := reset.pending_run inputs
  rw [asked_run] at requests
  rw [← requests, pushed_run, ← pushes', ← asks']
  refine ⟨⟨_, rfl⟩, ⟨_, rfl⟩, ?_⟩
  rintro rfl
  exact ⟨(List.append_nil _).symm, (List.append_nil _).symm⟩

/-- A word that nothing stalls. -/
def given (d : Word) : In := ⟨true, true, d, false, false, false, false, false, false⟩

theorem requests_performed_ask :
    let inputs := Packet.ask.encode.map given ++ [{ given 0 with rxCyc := false }]
    collect step taken reset inputs ++ (run step reset inputs).pending =
      [.write 0x100 7 0xf, .read 0x104 0xf] :=
  (requests_performed _ [.ask] [] (by decide)).2.2 rfl |>.1

/-- The cycle is held from a record to the next as the records say. -/
theorem cycle_kept (packets : List Packet) (p : Packet)
    (stream : collect step events reset inputs = packets.flatMap Packet.events ++ p.encode.map .word) :
    (run step reset inputs).rMasterCyc = p.records.foldl Record.hold false := by
  have core := simulates.core_run inv_reset inputs
  obtain ⟨-, -, state, cyc⟩ := serve_packets reset packets rfl
  obtain ⟨s', serves, -, held⟩ := serve_words _ p state
  rw [stream, run_append] at core
  have ends : (run step reset inputs).quiet = s' := core.trans serves.ends
  rw [cyc rfl] at held
  rw [← held, ← ends]
  rfl

theorem cycle_kept_ask : (run step reset (Packet.ask.encode.map given)).rMasterCyc = true :=
  cycle_kept _ [] .ask (by decide)

end SlaveFsm

end WrCores.Etherbone
