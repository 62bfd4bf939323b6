import VlanTagger.Pipeline.Completion
import VlanTagger.Pipeline.Counters

/-!
# Where the frames of the program go

The network of `vlan_tagger_pattern` under every interleaving of its threads. Every
captured frame is in exactly one place, and a frame that the queue to the sender has
accepted is sent exactly when its tagged form is below the limit of the sender, once the
sender has come to it.
-/
namespace VlanTagger.Pipeline

open Lib Nodes Queue

/-! ## Conservation -/

/-- The queue `k` accepts a frame. -/
def acceptedBy (k : Channel) : Event Station Channel → Bool
  | .push _ k' stored => decide (k' = k) && stored
  | _ => false

/-- The node `n` pops a frame. -/
def poppedBy (n : Station) : Event Station Channel → Bool
  | .take m _ _ => decide (m = n)
  | _ => false

/-- The account of the captured frames after the run `tr` to the state `s`. -/
structure Conserved (host : ByteOrder) (ctx : TaggerContext) (tr : List (Event Station Channel))
    (s : State Station Channel) : Prop where
  /-- each captured frame is in exactly one place .. -/
  one_place : ∀ id < (capturedFrames tr).length, ∃! p, id ∈ (ledger tr).tokens.held p
  /-- .. and there once -/
  once : ∀ p, ((ledger tr).tokens.held p).Nodup
  /-- no place has anything else -/
  only : ∀ p, ∀ id ∈ (ledger tr).tokens.held p, id < (capturedFrames tr).length
  /-- a queue holds exactly the frames that the account has in it -/
  queues : ∀ k, ∃ items, Represents (s.queue k) items ∧
    List.Forall₂ (fun id (packet : Packet) => ∃ p, (capturedFrames tr)[id]? = some p ∧
      k.stage.Carries ctx p packet.bytes) ((ledger tr).tokens.held (.queue k)) items
  /-- a thread holds one frame, in the form in which it passes it on, or is idle -/
  buffers : ∀ n, ((s.node n).pc.idle = true ∧ (ledger tr).tokens.held (.buffer n) = []) ∨
    ∃ id p, (ledger tr).tokens.held (.buffer n) = [id] ∧ (capturedFrames tr)[id]? = some p ∧
      Passes vlanTagger ctx Channel.stage (n.process ctx).role n p (s.node n).pc
  /-- a `push` refuses a frame only when its queue is full -/
  dropped_full : ∀ n k s', Step host vlanTagger s (.push n k false) s' →
    ∃ items, Represents (s.queue k) items ∧ items.length = qSize
  /-- a tagger discards what it has no tag for -/
  tagger_discards : ∀ n, n = Station.tagger1 ∨ n = Station.tagger2 →
    ∀ id ∈ (ledger tr).tokens.held (.discarded n),
      ∃ p, (capturedFrames tr)[id]? = some p ∧ tagFrame ctx p = none
  /-- the sender discards what is too long for it -/
  sender_discards : ∀ id ∈ (ledger tr).tokens.held (.discarded .sender),
    ∃ p f, (capturedFrames tr)[id]? = some p ∧ tagFrame ctx p = some f ∧ vlanEthFrameLen ≤ f.length
  others_discard : ∀ n, n = Station.sniffer ∨ n = Station.dispatcher ∨ n = Station.packetCounter →
    (ledger tr).tokens.held (.discarded n) = []
  /-- the calls of `sendto` are for different captured frames, with their tagged forms -/
  handed : ∃ ids : List Nat, ids.Nodup ∧
    (∀ id, id ∈ ids ↔ ∃ n, id ∈ (ledger tr).tokens.held (.failed n) ∨
      id ∈ (ledger tr).tokens.held (.sent n)) ∧
    List.Forall₂ (fun id f => ∃ p, (capturedFrames tr)[id]? = some p ∧ tagFrame ctx p = some f)
      ids (handedFrames tr)
  /-- the counters, as 64-bit words -/
  packets_sent : ∃ c, (s.node .dispatcher).process = .dispatcher c ∧
    c.packetsSent = UInt64.ofNat (tr.countP (acceptedBy .tagger1) + tr.countP (acceptedBy .tagger2))
  total_packets : ∃ c, (s.node .packetCounter).process = .packetCounter c ∧
    c.totalPackets = UInt64.ofNat (tr.countP (poppedBy .packetCounter))

section

variable {host : ByteOrder} {ctx : TaggerContext} {tr : List (Event Station Channel)}
  {s : State Station Channel}

/-- What the taggers get from the dispatcher is all that it pushes. -/
theorem accepted_dispatcher (h : (vlanTaggerRuntime host ctx).Run tr s) :
    tr.countP (acceptedBy .tagger1) + tr.countP (acceptedBy .tagger2) =
      tr.countP (Event.counts .dispatcher (.dispatcher .roundRobin)) := by
  refine h.invariant (I := fun tr _ => tr.countP (acceptedBy .tagger1) +
    tr.countP (acceptedBy .tagger2) =
      tr.countP (Event.counts .dispatcher (.dispatcher .roundRobin))) (fun _ _ => rfl) ?_
  intro tr s e s' hrun hi hs
  have hlast : [e].countP (acceptedBy .tagger1) + [e].countP (acceptedBy .tagger2) =
      [e].countP (Event.counts .dispatcher (.dispatcher .roundRobin)) := by
    cases e with
    | push m k stored =>
      have hk := push_outputs (vlanTagger_lane ctx) hrun hs
      cases m <;> cases k <;> first | exact absurd hk (by decide) | cases stored <;> rfl
    | _ => rfl
  rw [List.countP_append, List.countP_append, List.countP_append, ← hi, ← hlast]
  omega

theorem counts_packetCounter (n : Station) :
    Event.counts n .packetCounter = poppedBy n := by
  funext e
  cases e <;> rfl

/-- The calls of `sendto`, with the numbers of their frames. -/
theorem handed_frames (h : (vlanTaggerRuntime host ctx).Run tr s) :
    ∃ ids : List Nat, ids.Nodup ∧
      (∀ id, id ∈ ids ↔ ∃ n, id ∈ (ledger tr).tokens.held (.failed n) ∨
        id ∈ (ledger tr).tokens.held (.sent n)) ∧
      List.Forall₂ (fun id f => ∃ p, (capturedFrames tr)[id]? = some p ∧ tagFrame ctx p = some f)
        ids (handedFrames tr) := by
  have honce := ledger_handedOnce tr
  refine ⟨(ledger tr).handed.map Prod.fst, honce.nodup, fun id => ?_, ?_⟩
  · rw [honce.mem_iff]
    constructor
    · intro hid
      obtain ⟨p, hp, hid⟩ := hid
      cases p with
      | failed n => exact ⟨n, .inl hid⟩
      | sent n => exact ⟨n, .inr hid⟩
      | _ => cases hp
    · intro hid
      obtain ⟨n, hid | hid⟩ := hid
      · exact ⟨.failed n, rfl, hid⟩
      · exact ⟨.sent n, rfl, hid⟩
  · rw [← handed_run (vlanTagger_lane ctx) h, List.forall₂_map_left_iff,
      List.forall₂_map_right_iff, List.forall₂_same]
    intro x hx
    obtain ⟨p, hname, htag, -⟩ := (agrees_run (vlanTagger_lane ctx) h).handed x hx
    exact ⟨p, names_iff.mp hname, htag⟩

theorem packetsSent_run (h : (vlanTaggerRuntime host ctx).Run tr s)
    (hpos : ∀ n frame, Event.recv n frame ∈ tr → 1 ≤ frame.length) :
    ∃ c, (s.node .dispatcher).process = .dispatcher c ∧ c.packetsSent =
      UInt64.ofNat (tr.countP (acceptedBy .tagger1) + tr.countP (acceptedBy .tagger2)) := by
  have hcounter := counter_run (vlanTagger_lane ctx) h hpos .dispatcher rfl
  have hrole := (agrees_run (vlanTagger_lane ctx) h).roles .dispatcher
  rw [accepted_dispatcher h]
  cases hp : (s.node .dispatcher).process with
  | dispatcher c =>
    rw [hp] at hcounter
    exact ⟨c, rfl, hcounter⟩
  | _ =>
    rw [hp] at hrole
    cases hrole

theorem totalPackets_run (h : (vlanTaggerRuntime host ctx).Run tr s)
    (hpos : ∀ n frame, Event.recv n frame ∈ tr → 1 ≤ frame.length) :
    ∃ c, (s.node .packetCounter).process = .packetCounter c ∧
      c.totalPackets = UInt64.ofNat (tr.countP (poppedBy .packetCounter)) := by
  have hcounter := counter_run (vlanTagger_lane ctx) h hpos .packetCounter rfl
  have hrole := (agrees_run (vlanTagger_lane ctx) h).roles .packetCounter
  rw [← counts_packetCounter]
  cases hp : (s.node .packetCounter).process with
  | packetCounter c =>
    rw [hp] at hcounter
    exact ⟨c, rfl, hcounter⟩
  | _ =>
    rw [hp] at hrole
    cases hrole

/-- Packets are conserved: after any run, by any interleaving and with queues full or not. -/
theorem packets_conserved
    (h : (vlanTaggerOnLink host ctx).Run tr s) :
    Conserved host ctx tr s := by
  have hrun : (vlanTaggerRuntime host ctx).Run tr s := h.of_restrict
  have hagrees := agrees_onLink h
  have hexcl := ledger_exclusive tr
  have hrecv : ∀ n frame, Event.recv n frame ∈ tr → 1 ≤ frame.length ∧ frame.length ≤ 1518 := by
    intro n frame hm
    exact System.Run.forall_of_restrict (C := CapturesFrames) (P := fun e => ∀ n frame,
      e = .recv n frame → 1 ≤ frame.length ∧ frame.length ≤ 1518) (fun _ _ hc => hc) h _ hm n frame rfl
  have hpos : ∀ n frame, Event.recv n frame ∈ tr → 1 ≤ frame.length :=
    fun n frame hm => (hrecv n frame hm).1
  refine ⟨fun id hid => ?_, hexcl.nodup, fun p id hid => ?_, fun k => ?_, fun n => ?_,
    fun n k s' hs => ?_, fun n hn id hid => ?_, fun id hid => ?_, fun n hn => ?_,
    handed_frames hrun, packetsSent_run hrun hpos, totalPackets_run hrun hpos⟩
  · rw [← ledger_captured] at hid
    exact hexcl.existsUnique hid
  · rw [← ledger_captured]
    exact hexcl.lt_of_held hid
  · obtain ⟨items, hrep, hall⟩ := hagrees.queue k
    refine ⟨items, hrep, hall.imp fun id packet hp => ?_⟩
    obtain ⟨p, hname, hc⟩ := hp
    exact ⟨p, names_iff.mp hname, hc⟩
  · rcases hagrees.buffer n with hidle | ⟨id, p, hone, hname, hpass⟩
    · exact .inl hidle
    · exact .inr ⟨id, p, hone, names_iff.mp hname, hpass⟩
  · exact refused_full (vlanTagger_lane ctx) hrun (forall_captured hrecv) hs rfl
  · obtain ⟨p, hname, hd⟩ := hagrees.discarded n id hid
    refine ⟨p, names_iff.mp hname, ?_⟩
    rcases hn with rfl | rfl <;> exact hd
  · obtain ⟨p, hname, f, htag, hlong⟩ := hagrees.discarded .sender id hid
    exact ⟨p, f, names_iff.mp hname, htag, hlong⟩
  · rw [List.eq_nil_iff_forall_not_mem]
    intro id hid
    obtain ⟨p, -, hd⟩ := hagrees.discarded n id hid
    rcases hn with rfl | rfl | rfl <;> exact hd

end

/-- A frame of 34 bytes has gone through the network. -/
theorem packets_conserved_one :
    ∃ tr s, capturedFrames tr = [paddedFrame 0] ∧ Conserved .little oneRange tr s := by
  obtain ⟨tr, s, hrun, hcap, -⟩ :=
    passes_network .little (tagFrame_paddedFrame 0) (by rw [length_paddedFrame]; decide)
  exact ⟨tr, s, hcap, packets_conserved hrun⟩

/-! ## The limit of the sender -/

/-- A frame that was handed to `sendto` is neither in the queue to the sender nor in its hands. -/
theorem senderDone_of_sends {tr : List (Event Station Channel)} {id : Nat} {f : List UInt8}
    (h : f ∈ (ledger tr).sends id) : SenderDone tr id := by
  have hexcl := ledger_exclusive tr
  obtain ⟨place, hplace, hid⟩ :=
    ((ledger_handedOnce tr).mem_iff id).mp (List.mem_map_of_mem (Ledger.mem_of_sends h))
  constructor
  · intro hqueue
    rw [hexcl.disjoint hid hqueue] at hplace
    cases hplace
  · intro hbuffer
    rw [hexcl.disjoint hid hbuffer] at hplace
    cases hplace

/-- At rest the sender is done with every frame. -/
theorem senderDone_at_rest {host : ByteOrder} {ctx : TaggerContext}
    {tr : List (Event Station Channel)} {s : State Station Channel}
    (h : (vlanTaggerRuntime host ctx).Run tr s)
    (hrest : AtRest host vlanTagger (Station.process ctx) s) (hgo : s.shouldExit = false) (id : Nat) :
    SenderDone tr id := by
  obtain ⟨hqueue, hbuffer⟩ := held_at_rest (vlanTagger_lane ctx) (vlanTagger_ready ctx)
    (vlanTagger_consumed ctx) h hrest hgo
  constructor
  · rw [hqueue]
    exact List.not_mem_nil
  · rw [hbuffer]
    exact List.not_mem_nil

theorem sends_iff_done {host : ByteOrder} {ctx : TaggerContext}
    {tr : List (Event Station Channel)} {s : State Station Channel}
    (h : (vlanTaggerRuntime host ctx).Run tr s) {id : Nat} {p f : List UInt8}
    (hp : (capturedFrames tr)[id]? = some p) (htag : tagFrame ctx p = some f)
    (haccepted : (id, .queue .sender) ∈ (ledger tr).tokens.arrivals) :
    (ledger tr).sends id = [f] ↔ p.length ≤ 1513 ∧ SenderDone tr id := by
  have hlen := (length_tagFrame htag).2
  have hlimit : f.length < vlanEthFrameLen ↔ p.length ≤ 1513 := by
    rw [hlen]
    show p.length + 4 < 1518 ↔ _
    omega
  have hiff : SenderDone tr id → ((ledger tr).sends id = [f] ↔ p.length ≤ 1513) := fun hdone =>
    (sends_iff (n := .sender) (k := .sender) (vlanTagger_lane ctx) h rfl rfl (names_iff.mpr hp)
      htag haccepted hdone.1 hdone.2).trans hlimit
  constructor
  · intro hsends
    have hdone : SenderDone tr id := senderDone_of_sends (hsends ▸ List.mem_singleton_self f)
    exact ⟨(hiff hdone).mp hsends, hdone⟩
  · intro ⟨hshort, hdone⟩
    exact (hiff hdone).mpr hshort

/-- A frame that the taggers have a tag for and that the queue to the sender has accepted has
been handed to `sendto`, once and as it was tagged, exactly if it has at most 1513 bytes and
the sender is done with it. Left alone, the network comes to rest, and unless it is being
stopped the sender is done with the frame then. -/
theorem sender_sends_iff {host : ByteOrder} {ctx : TaggerContext}
    {tr : List (Event Station Channel)} {s : State Station Channel}
    (h : (vlanTaggerRuntime host ctx).Run tr s) {id : Nat} {p f : List UInt8}
    (hp : (capturedFrames tr)[id]? = some p) (htag : tagFrame ctx p = some f)
    (haccepted : (id, .queue .sender) ∈ (ledger tr).tokens.arrivals) :
    ((ledger tr).sends id = [f] ↔ p.length ≤ 1513 ∧ SenderDone tr id) ∧
      (∃ tr' t, (vlanTaggerRuntime host ctx).Path s tr' t ∧ (∀ e ∈ tr', e.isInner = true) ∧
        AtRest host vlanTagger (Station.process ctx) t) ∧
      ∀ tr' t, (vlanTaggerRuntime host ctx).Path s tr' t →
        AtRest host vlanTagger (Station.process ctx) t → t.shouldExit = false →
          SenderDone (tr ++ tr') id ∧
            ((ledger (tr ++ tr')).sends id = [f] ↔ p.length ≤ 1513) := by
  refine ⟨sends_iff_done h hp htag haccepted,
    exists_rest (weighted_of_rank vlanTagger_outputs vlanTagger_rank) h.reachable,
    fun tr' t path hrest hgo => ?_⟩
  have hdone := senderDone_at_rest (h.path path) hrest hgo id
  have hiff := sends_iff_done (h.path path) (capturedFrames_append hp) htag
    (arrivals_subset_append tr tr' haccepted)
  exact ⟨hdone, hiff.trans (and_iff_left hdone)⟩

/-- A frame of 1513 bytes is sent. -/
theorem sender_sends_long :
    ∃ tr s, (vlanTaggerRuntime .little oneRange).Run tr s ∧
      capturedFrames tr = [paddedFrame 1479] ∧
      (ledger tr).sends 0 = [insertTag (paddedFrame 1479) 7] := by
  have htag := tagFrame_paddedFrame 1479
  obtain ⟨tr, s, hrun, hcap, -, haccepted, hdone⟩ :=
    passes_network .little htag (by rw [length_paddedFrame]; decide)
  refine ⟨tr, s, hrun.of_restrict, hcap,
    (sender_sends_iff hrun.of_restrict ?_ htag haccepted).1.mpr ⟨?_, hdone⟩⟩
  · rw [hcap]
    rfl
  · rw [length_paddedFrame]

/-- An IPv4 frame of 1514 bytes, the longest of a link with an MTU of 1500, is tagged, is
accepted by both queues and is never handed to `sendto`. -/
theorem sender_discards_longest :
    ∃ p f tr s, p.length = 1514 ∧ etherType p = 0x0800 ∧ tagFrame oneRange p = some f ∧
      (vlanTaggerRuntime .little oneRange).Run tr s ∧ (capturedFrames tr)[0]? = some p ∧
      (0, .queue .packetCounter) ∈ (ledger tr).tokens.arrivals ∧
      (0, .queue .sender) ∈ (ledger tr).tokens.arrivals ∧ SenderDone tr 0 ∧
      (ledger tr).sends 0 = [] ∧ handedFrames tr = [] := by
  have htag := tagFrame_paddedFrame 1480
  have hlen := length_paddedFrame 1480
  obtain ⟨tr, s, hrun, hcap, hcounter, haccepted, hdone⟩ :=
    passes_network .little htag (by rw [hlen]; decide)
  have hagrees := agrees_onLink hrun
  have hnone : (ledger tr).handed = [] := by
    rw [List.eq_nil_iff_forall_not_mem]
    intro x hx
    obtain ⟨p, hname, hp, hshort⟩ := hagrees.handed x hx
    have hmem := List.mem_of_getElem? (names_iff.mp hname)
    rw [hcap, List.mem_singleton] at hmem
    have hlong := (length_tagFrame hp).2
    rw [hmem, hlen] at hlong
    rw [hlong] at hshort
    exact absurd hshort (by decide)
  refine ⟨_, _, tr, s, hlen, etherType_paddedFrame 1480, htag, hrun.of_restrict, ?_, hcounter,
    haccepted, hdone, ?_, ?_⟩
  · rw [hcap]
    rfl
  · rw [Ledger.sends, hnone]
    rfl
  · rw [← handed_run (vlanTagger_lane oneRange) hrun.of_restrict, hnone]
    rfl

end VlanTagger.Pipeline
