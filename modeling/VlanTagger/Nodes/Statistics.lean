import VlanTagger.Nodes.Modifying

/-!
# The statistics of the packet counter

What the counter says about the packets that were popped, and about those that a tagger
made: the test for a tag is written twice in the source, once as the tagger's encoder and
once as `is_vlan_packet`.
-/
namespace VlanTagger.Nodes

open Lib Queue

/-- `packet_counter_node_create` with its test of `log_interval`. -/
def packetCounterCreate (logInterval : Int) : Option PacketCounterContext :=
  if logInterval ≤ 0 then none else some packetCounterNodeCreate

/-- The numbers in the line `Total= pkts ( bytes), VLAN=, Non-VLAN=, Avg size=`. -/
structure StatisticsLine where
  total : UInt64
  bytes : UInt64
  vlan : UInt64
  nonVlan : UInt64
  average : UInt64

/-- The line that is printed when `log_interval` packets have passed. -/
def statisticsLine (logInterval : Int) (ctx : PacketCounterContext) : Option StatisticsLine :=
  if ctx.totalPackets % UInt64.ofInt logInterval = 0 then
    some ⟨ctx.totalPackets, ctx.totalBytes, ctx.vlanPackets, ctx.nonVlanPackets,
      if 0 < ctx.totalPackets then ctx.totalBytes / ctx.totalPackets else 0⟩
  else none

/-- One packet: what was printed behind it and what went to `node_send_to_outputs`. -/
structure CountedPacket where
  packet : Packet
  line : Option StatisticsLine
  sent : Option (List UInt8)

/-- The loop of a packet counter: its context and what its buffer holds. -/
def packetCounterSystem (logInterval : Int) :
    System (PacketCounterContext × Memory UInt8) CountedPacket where
  init := fun s => packetCounterCreate logInterval = some s.1
  step := fun s e s' => ∃ packetSize : Int,
    Delivered e.packet s.2 s'.2 packetSize ∧
    s'.1 = (packetCounterBody s.1 s'.2 packetSize).1 ∧
    e.line = statisticsLine logInterval s'.1 ∧
    e.sent = (packetCounterBody s.1 s'.2 packetSize).2.frame

/-- What `is_vlan_packet` looks for. -/
def Vlan (p : List UInt8) : Prop := 16 ≤ p.length ∧ etherType p = 0x8100

instance (p : List UInt8) : Decidable (Vlan p) := inferInstanceAs (Decidable (_ ∧ _))

theorem isVlanPacket_eq {buffer : Memory UInt8} {p : List UInt8} (h : buffer.bytes p.length = p) :
    isVlanPacket buffer p.length = decide (Vlan p) := by
  unfold isVlanPacket Vlan
  by_cases hlen : (p.length : Int) < 16
  · have hno : ¬ 16 ≤ p.length := by omega
    simp [hlen, hno]
  · have hyes : 16 ≤ p.length := by omega
    have htype : ((buffer 12).toUInt16 <<< 8 ||| (buffer 13).toUInt16).toNat = etherType p := by
      rw [word_toNat, etherType, getD_of_bytes h (by omega), getD_of_bytes h (by omega)]
    simp only [hlen, hyes, if_false, true_and, ← UInt16.toNat_inj, htype]
    rfl

/-- What one packet adds to the statistics. -/
structure Counted (c : PacketCounterContext) (e : CountedPacket) (c' : PacketCounterContext) : Prop where
  packets : c'.totalPackets = c.totalPackets + 1
  bytes : c'.totalBytes = c.totalBytes + UInt64.ofNat e.packet.bytes.length
  vlan : c'.vlanPackets = if Vlan e.packet.bytes then c.vlanPackets + 1 else c.vlanPackets
  nonVlan : c'.nonVlanPackets = if Vlan e.packet.bytes then c.nonVlanPackets else c.nonVlanPackets + 1
  sent : e.sent = some e.packet.bytes

theorem packetCounter_step {logInterval : Int} {s s' : PacketCounterContext × Memory UInt8}
    {e : CountedPacket} (h : (packetCounterSystem logInterval).step s e s') : Counted s.1 e s'.1 := by
  obtain ⟨packetSize, ⟨hret, hbytes, -⟩, hctx, -, hsent⟩ := h
  subst hret
  have hpos := e.packet.length_pos
  have hle : e.packet.bytes.length ≤ 1522 := e.packet.length_le
  have hone : ¬ ((e.packet.bytes.length : Int) < 1) := by omega
  have hsize : UInt64.ofInt (e.packet.bytes.length : Int) = UInt64.ofNat e.packet.bytes.length := by
    have hmod : ((e.packet.bytes.length : Int) % 2 ^ 64).toNat = e.packet.bytes.length := by omega
    rw [UInt64.ofInt, hmod]
  simp only [packetCounterBody, hone, if_false, isVlanPacket_eq hbytes, decide_eq_true_eq] at hctx hsent
  rw [frame_sendToOutputs hbytes (by omega)] at hsent
  rw [hsize] at hctx
  refine ⟨?_, ?_, ?_, ?_, hsent⟩ <;> rw [hctx] <;> split <;> rfl

/-- The invariant of a run. -/
structure Totals (tr : List CountedPacket) (c : PacketCounterContext) : Prop where
  packets : c.totalPackets = UInt64.ofNat tr.length
  bytes : c.totalBytes = UInt64.ofNat (tr.map fun e => e.packet.bytes.length).sum
  classes : c.vlanPackets + c.nonVlanPackets = c.totalPackets
  nonVlan : c.nonVlanPackets = UInt64.ofNat (tr.countP fun e => ¬ Vlan e.packet.bytes)
  sent : tr.map CountedPacket.sent = tr.map fun e => some e.packet.bytes

theorem totals_run {logInterval : Int} {tr : List CountedPacket} {s : PacketCounterContext × Memory UInt8}
    (h : (packetCounterSystem logInterval).Run tr s) : Totals tr s.1 := by
  induction h with
  | start hinit =>
    have hctx : packetCounterCreate logInterval = some _ := hinit
    unfold packetCounterCreate at hctx
    split at hctx
    · cases hctx
    · rw [← Option.some.inj hctx]
      exact ⟨rfl, rfl, rfl, rfl, rfl⟩
  | @snoc tr s s' e run hstep ih =>
    have hone := packetCounter_step hstep
    refine ⟨?_, ?_, ?_, ?_, ?_⟩
    · rw [hone.packets, ih.packets, List.length_append, List.length_singleton, UInt64.ofNat_add]
      rfl
    · rw [hone.bytes, ih.bytes, List.map_append, List.sum_append, UInt64.ofNat_add]
      rfl
    · rw [hone.packets, hone.vlan, hone.nonVlan, ← ih.classes]
      split
      · ac_rfl
      · ac_rfl
    · rw [hone.nonVlan, ih.nonVlan, List.countP_append, List.countP_singleton, UInt64.ofNat_add]
      by_cases hv : Vlan e.packet.bytes
      · simp [hv]
      · simp [hv]
    · rw [List.map_append, List.map_append, ih.sent, List.map_singleton, List.map_singleton, hone.sent]

/-! ## Packets that a tagger made -/

/-- `f` is what `tagger_node_process` passed on for `o`, whatever its buffers held. -/
def TaggedFrom (o f : Packet) : Prop :=
  o.bytes.length ≤ 1518 ∧ ∃ (host : ByteOrder) (ctx : TaggerContext) (s s' : Memory UInt8 × Memory UInt8),
    (taggerSystem host ctx).step s (o, some f.bytes) s'

theorem vlan_of_tagFrame {ctx : TaggerContext} {p f : List UInt8} (h : tagFrame ctx p = some f) : Vlan f := by
  obtain ⟨hlen, -, vid, hf⟩ := tagFrame_eq_insertTag h
  obtain ⟨-, hgrow⟩ := length_tagFrame h
  exact ⟨by omega, by rw [hf, etherType_insertTag (by omega)]⟩

theorem vlan_of_tagged {o f : Packet} (h : TaggedFrom o f) :
    Vlan f.bytes ∧ f.bytes.length = o.bytes.length + 4 := by
  obtain ⟨hle, host, ctx, s, s', hstep⟩ := h
  have htag := (taggerSystem_step hstep hle).symm
  exact ⟨vlan_of_tagFrame htag, (length_tagFrame htag).2⟩

/-- The statistics are those of the packets popped, which are passed on unchanged; behind a
tagger, they are those of its originals. -/
theorem packet_counter_totals {logInterval : Int} {tr : List CountedPacket}
    {s : PacketCounterContext × Memory UInt8} (h : (packetCounterSystem logInterval).Run tr s) :
    s.1.totalPackets = UInt64.ofNat tr.length ∧
    s.1.totalBytes = UInt64.ofNat (tr.map fun e => e.packet.bytes.length).sum ∧
    s.1.vlanPackets + s.1.nonVlanPackets = s.1.totalPackets ∧
    (tr.map CountedPacket.sent = tr.map fun e => some e.packet.bytes) ∧
    ∀ originals : List Packet, List.Forall₂ (fun o e => TaggedFrom o e.packet) originals tr →
      s.1.nonVlanPackets = 0 ∧
      s.1.totalBytes = UInt64.ofNat (originals.map fun o => o.bytes.length).sum + 4 * s.1.totalPackets := by
  have htot := totals_run h
  refine ⟨htot.packets, htot.bytes, htot.classes, htot.sent, fun originals hall => ?_⟩
  have hsum : (tr.countP fun e => ¬ Vlan e.packet.bytes) = 0 ∧
      (tr.map fun e => e.packet.bytes.length).sum =
        (originals.map fun o => o.bytes.length).sum + 4 * tr.length := by
    clear h htot
    induction hall with
    | nil => exact ⟨rfl, rfl⟩
    | @cons o e originals tr htagged _ ih =>
      obtain ⟨hvlan, hgrow⟩ := vlan_of_tagged htagged
      obtain ⟨hnone, hrest⟩ := ih
      refine ⟨?_, ?_⟩
      · rw [List.countP_cons, hnone]
        simp [hvlan]
      · rw [List.map_cons, List.sum_cons, List.map_cons, List.sum_cons, List.length_cons, hrest, hgrow]
        omega
  refine ⟨?_, ?_⟩
  · rw [htot.nonVlan, hsum.1]
    rfl
  · rw [htot.bytes, htot.packets, hsum.2, UInt64.ofNat_add, UInt64.ofNat_mul]
    rfl

def plainPacket : Packet := ⟨plainFrame, by decide, by decide⟩

def taggedPacket : Packet := ⟨insertTag plainFrame 7, by decide, by decide⟩

/-- A 46-byte packet that a tagger gave the VLAN ID 7. -/
theorem packet_counter_totals_tagged : ∃ (tr : List CountedPacket) (s : PacketCounterContext × Memory UInt8),
    (packetCounterSystem 10).Run tr s ∧ (tr.map fun e => e.packet.bytes.length) = [50] ∧
    s.1.nonVlanPackets = 0 ∧ s.1.totalBytes = UInt64.ofNat 46 + 4 * s.1.totalPackets := by
  let b : Memory UInt8 := Memory.ofList taggedPacket.bytes 0
  have hrun : (packetCounterSystem 10).Run ([] ++ [⟨taggedPacket, none, some (b.bytes 50)⟩])
      (⟨1, 50, 1, 0⟩, b) :=
    .snoc (s := (packetCounterNodeCreate, b)) (.start rfl)
      ⟨50, ⟨rfl, Memory.bytes_ofList _ _, fun _ _ => rfl⟩, by decide +kernel, by decide +kernel, rfl⟩
  let worked := taggerBody .little ⟨[⟨0, 0xFFFFFFFF, 7⟩]⟩ (Memory.ofList plainFrame 0) (fun _ => 0) 46
  have hframe : some taggedPacket.bytes = worked.2.frame := by decide +kernel
  have htagged : TaggedFrom plainPacket taggedPacket := by
    refine ⟨by decide, .little, ⟨[⟨0, 0xFFFFFFFF, 7⟩]⟩, (fun _ => 0, fun _ => 0),
      (Memory.ofList plainFrame 0, worked.1), 46, ⟨rfl, Memory.bytes_ofList _ _, ?_⟩, rfl, hframe⟩
    intro i hi
    exact List.getD_eq_default _ _ hi
  exact ⟨_, _, hrun, rfl, (packet_counter_totals hrun).2.2.2.2 [plainPacket] (.cons htagged .nil)⟩

end VlanTagger.Nodes
