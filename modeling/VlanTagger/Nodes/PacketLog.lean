import VlanTagger.Lib.Reports
import VlanTagger.Nodes.HexDump
import VlanTagger.Nodes.Statistics

/-!
# What the logger and the packet counter hand to printL

The texts of one turn of the two loops and those behind the loops, with the test of
`log_interval` as each of the two has it. A dump can be read back, and the statistics are
those of the packets so far.
-/
namespace VlanTagger.Nodes

open Lib Lib.CString Queue Logger

/-- A `pop` that failed; 0 is passed over. `final` is what stands behind the loop. -/
def popFailedTexts (nodeName : CString) (packetSize : Int) (final : List CString) : List CString :=
  if packetSize = 0 then [] else (nodeName ++ ofString ": pop error") :: final

/-! ## logger_node.c -/

/-- `ctx->log_interval <= 1 || ctx->packet_count % ctx->log_interval == 0` -/
def logsPacket (logInterval : Int) (packetCount : UInt64) : Bool :=
  logInterval ≤ 1 || packetCount % UInt64.ofInt logInterval == 0

/-- Behind the loop. -/
def loggerFinal (nodeName : CString) (ctx : LoggerContext) : List CString :=
  [ofString "Logger node stopped: " ++ (nodeName ++ (ofString " (logged " ++ (decimal ctx.packetCount.toNat ++
    ofString " packets)")))]

/-- The body of the loop; `fullDump` is what the array of `log_packet_hex` holds at first. -/
def loggerTexts (nodeName : CString) (logInterval : Int) (fullDump : Memory UInt8) (ctx : LoggerContext)
    (buffer : Memory UInt8) (packetSize : Int) : List CString :=
  if packetSize < 1 then popFailedTexts nodeName packetSize (loggerFinal nodeName ctx)
  else
    let packetCount := ctx.packetCount + 1
    if logsPacket logInterval packetCount then
      [(logPacketHex nodeName buffer packetSize.toNat packetCount.toNat fullDump).text]
    else []

/-! ## packet_counter_node.c -/

/-- `"%s: Total=%lu pkts (%lu bytes), VLAN=%lu, Non-VLAN=%lu, Avg size=%lu bytes"` -/
def statisticsText (nodeName : CString) (l : StatisticsLine) : CString :=
  nodeName ++ (ofString ": Total=" ++ (decimal l.total.toNat ++ (ofString " pkts (" ++ (decimal l.bytes.toNat ++
    (ofString " bytes), VLAN=" ++ (decimal l.vlan.toNat ++ (ofString ", Non-VLAN=" ++ (decimal l.nonVlan.toNat ++
      (ofString ", Avg size=" ++ (decimal l.average.toNat ++ ofString " bytes"))))))))))

/-- Behind the loop. -/
def packetCounterFinal (nodeName : CString) (ctx : PacketCounterContext) : List CString :=
  [nodeName ++ (ofString ": FINAL STATS - Total=" ++ (decimal ctx.totalPackets.toNat ++ (ofString " pkts (" ++
      (decimal ctx.totalBytes.toNat ++ (ofString " bytes), VLAN=" ++ (decimal ctx.vlanPackets.toNat ++
        (ofString ", Non-VLAN=" ++ decimal ctx.nonVlanPackets.toNat))))))),
    ofString "PacketCounter node stopped: " ++ nodeName]

/-- The body of the loop. -/
def packetCounterTexts (nodeName : CString) (logInterval : Int) (ctx : PacketCounterContext)
    (buffer : Memory UInt8) (packetSize : Int) : List CString :=
  if packetSize < 1 then popFailedTexts nodeName packetSize (packetCounterFinal nodeName ctx)
  else
    ((statisticsLine logInterval (packetCounterBody ctx buffer packetSize).1).map (statisticsText nodeName)).toList

/-! ## Reading a dump -/

/-- What a dump shows: the number, the size and the bytes of a packet. -/
structure ShownPacket where
  pktNum : Nat
  size : Nat
  bytes : List UInt8
  deriving DecidableEq

/-- A dump of this node; none for another text. -/
def readPacketDump (nodeName text : CString) : Option ShownPacket := do
  let rest ← text.dropPrefix? (ofString "=== " ++ (nodeName ++ ofString ": Packet #"))
  let pktNum := readDigits 10 0 rest
  let rest ← pktNum.2.dropPrefix? (ofString " (")
  let size := readDigits 10 0 rest
  let body ← size.2.dropPrefix? (ofString " bytes) ===\n")
  return ⟨pktNum.1, size.1, (readDump body).flatMap Prod.snd⟩

section

variable {nodeName : CString} {logInterval : Int} {buffer fullDump : Memory UInt8}

/-- A number ends where the fixed text behind it begins. -/
theorem readDigits_decimal_append (n : Nat) {t : CString} (ht : ∃ c, t.head? = some c ∧ digitValue 10 c = none)
    (rest : CString) : readDigits 10 0 (decimal n ++ (t ++ rest)) = (n, t ++ rest) := by
  obtain ⟨c, hhead, hdigit⟩ := ht
  apply readDigits_decimal n
  intro c' hc'
  rw [List.head?_append, hhead] at hc'
  rw [← Option.some.inj hc']
  exact hdigit

theorem dropPrefix_append (t rest : CString) : (t ++ rest).dropPrefix? t = some rest :=
  List.dropPrefix?_append_of_beq rest BEq.rfl

theorem readPacketDump_header (nodeName : CString) (size pktNum : Nat) (body : CString) :
    readPacketDump nodeName (dumpHeader nodeName size pktNum ++ body) =
      some ⟨pktNum, size, (readDump body).flatMap Prod.snd⟩ := by
  have hheader : dumpHeader nodeName size pktNum ++ body =
      (ofString "=== " ++ (nodeName ++ ofString ": Packet #")) ++ (decimal pktNum ++ (ofString " (" ++
        (decimal size ++ (ofString " bytes) ===\n" ++ body)))) := by
    simp only [dumpHeader, List.append_assoc]
  have hnum := readDigits_decimal_append pktNum (t := ofString " (") ⟨chr ' ', rfl, by decide⟩
  have hsize := readDigits_decimal_append size (t := ofString " bytes) ===\n") ⟨chr ' ', rfl, by decide⟩
  rw [hheader, readPacketDump]
  simp only [dropPrefix_append, hnum, hsize, Option.bind_eq_bind, Option.bind_some]
  rfl

/-- The dump of a packet reaches the log as a whole. -/
theorem message_logPacketHex (p : Packet) {pktNum : Nat} (hname : nodeName.length ≤ 63) (hnul : 0 ∉ nodeName)
    (hnum : pktNum < 2 ^ 64) (h : buffer.bytes p.bytes.length = p.bytes)
    (fullDump : Memory UInt8) : message (logPacketHex nodeName buffer p.bytes.length pktNum fullDump).text =
      dumpHeader nodeName p.bytes.length pktNum ++ dumpBody p.bytes := by
  obtain ⟨d, hrun, hd⟩ := logPacketHex_holds p hname hnum h fullDump
  have hheader := length_dumpHeader hname p.length_le hnum
  have hbody := length_dumpBody p.length_le
  have hlength : (dumpHeader nodeName p.bytes.length pktNum ++ dumpBody p.bytes).length ≤ 8191 := by
    rw [List.length_append]
    omega
  have hchars : ∀ c ∈ dumpHeader nodeName p.bytes.length pktNum ++ dumpBody p.bytes, c ≠ 0 := by
    intro c hc
    rcases List.mem_append.mp hc with hc | hc
    · exact dumpHeader_ne_zero hnul _ _ c hc
    · exact dumpBody_ne_zero p.length_le c hc
  have hne : dumpHeader nodeName p.bytes.length pktNum ++ dumpBody p.bytes ≠ [] :=
    List.append_ne_nil_of_left_ne_nil (List.cons_ne_nil _ _) _
  have htext : (logPacketHex nodeName buffer p.bytes.length pktNum fullDump).text =
      dumpHeader nodeName p.bytes.length pktNum ++ dumpBody p.bytes := by
    rw [hrun]
    exact cstr_holds hd hne (Nat.lt_succ_of_le hlength) hchars
  rw [htext, message_eq fun h0 => hchars 0 h0 rfl, List.take_of_length_le hlength]

/-- A dump in the log shows the packet. -/
theorem readPacketDump_message (p : Packet) {pktNum : Nat} (hname : nodeName.length ≤ 63) (hnul : 0 ∉ nodeName)
    (hnum : pktNum < 2 ^ 64) (h : buffer.bytes p.bytes.length = p.bytes) (fullDump : Memory UInt8) :
    readPacketDump nodeName (message (logPacketHex nodeName buffer p.bytes.length pktNum fullDump).text) =
      some ⟨pktNum, p.bytes.length, p.bytes⟩ := by
  have hrows : (readDump (dumpBody p.bytes)).flatMap Prod.snd = p.bytes := by
    rw [readDump_dumpBody p.length_pos p.length_le, List.flatMap_map]
    exact flatMap_row p.bytes
  rw [message_logPacketHex p hname hnul hnum h, readPacketDump_header, hrows]

/-! ## One packet -/

/-- The packet that a logger shows when it has taken `ps`, if it shows one. -/
def dumpReport (logInterval : Int) (ps : List (List UInt8)) : Option ShownPacket :=
  if logsPacket logInterval (UInt64.ofNat ps.length) then
    ps.getLast?.map fun p => ⟨ps.length % 2 ^ 64, p.length, p⟩
  else none

theorem ofNat_length_concat (ps : List (List UInt8)) (p : List UInt8) :
    UInt64.ofNat ps.length + 1 = UInt64.ofNat (ps ++ [p]).length := by
  rw [List.length_append, List.length_singleton, UInt64.ofNat_add]
  rfl

theorem read_loggerTexts (p : Packet) (hname : nodeName.length ≤ 63) (hnul : 0 ∉ nodeName)
    (h : buffer.bytes p.bytes.length = p.bytes) (fullDump : Memory UInt8) (ps : List (List UInt8)) :
    (loggerTexts nodeName logInterval fullDump ⟨UInt64.ofNat ps.length⟩ buffer p.bytes.length).map
        (fun t => readPacketDump nodeName (message t)) =
      (dumpReport logInterval (ps ++ [p.bytes])).toList.map some := by
  have hpos := p.length_pos
  have hone : ¬ (p.bytes.length : Int) < 1 := by omega
  rw [loggerTexts, if_neg hone, dumpReport, ← ofNat_length_concat]
  by_cases hlogs : logsPacket logInterval (UInt64.ofNat ps.length + 1)
  · have hnum : (UInt64.ofNat ps.length + 1).toNat = (ps ++ [p.bytes]).length % 2 ^ 64 := by
      rw [ofNat_length_concat ps p.bytes, UInt64.toNat_ofNat']
    have hread := readPacketDump_message p hname hnul (UInt64.ofNat ps.length + 1).toNat_lt h fullDump
    rw [hnum] at hread
    simp only [hlogs, if_true, List.map_singleton, Int.toNat_natCast, hnum, hread, List.getLast?_concat,
      Option.map_some, Option.toList_some]
  · simp only [hlogs]
    rfl

/-- The counters when these packets have passed. -/
def countersOf (ps : List (List UInt8)) : PacketCounterContext where
  totalPackets := UInt64.ofNat ps.length
  totalBytes := UInt64.ofNat (ps.map List.length).sum
  vlanPackets := UInt64.ofNat (ps.countP fun p => Vlan p)
  nonVlanPackets := UInt64.ofNat (ps.countP fun p => ¬ Vlan p)

theorem Counted.countersOf {ps : List (List UInt8)} {e : CountedPacket} {c : PacketCounterContext}
    (h : Counted (countersOf ps) e c) : c = Nodes.countersOf (ps ++ [e.packet.bytes]) := by
  have hext : ∀ c c' : PacketCounterContext, c.totalPackets = c'.totalPackets → c.totalBytes = c'.totalBytes →
      c.vlanPackets = c'.vlanPackets → c.nonVlanPackets = c'.nonVlanPackets → c = c' := by
    rintro ⟨⟩ ⟨⟩ rfl rfl rfl rfl
    rfl
  refine hext _ _ ?_ ?_ ?_ ?_
  · rw [h.packets]
    exact ofNat_length_concat ps e.packet.bytes
  · rw [h.bytes, Nodes.countersOf, Nodes.countersOf, List.map_append, List.sum_append, UInt64.ofNat_add]
    rfl
  · rw [h.vlan, Nodes.countersOf, Nodes.countersOf, List.countP_append, List.countP_singleton, UInt64.ofNat_add]
    by_cases hv : Vlan e.packet.bytes <;> simp [hv]
  · rw [h.nonVlan, Nodes.countersOf, Nodes.countersOf, List.countP_append, List.countP_singleton, UInt64.ofNat_add]
    by_cases hv : Vlan e.packet.bytes <;> simp [hv]

/-- Behind a tagger every packet counts as tagged. -/
theorem countersOf_tagged {ps : List (List UInt8)} (h : ∀ p ∈ ps, Vlan p) :
    (countersOf ps).vlanPackets = (countersOf ps).totalPackets ∧ (countersOf ps).nonVlanPackets = 0 := by
  have hvlan : ps.countP (fun p => Vlan p) = ps.length :=
    List.countP_eq_length.mpr fun p hp => decide_eq_true (h p hp)
  have hnone : ps.countP (fun p => ¬ Vlan p) = 0 :=
    List.countP_eq_zero.mpr fun p hp => by simp [h p hp]
  constructor
  · rw [countersOf, hvlan]
  · rw [countersOf, hnone]
    rfl

theorem packetCounterBody_countersOf (p : Packet) (h : buffer.bytes p.bytes.length = p.bytes)
    (ps : List (List UInt8)) :
    (packetCounterBody (countersOf ps) buffer p.bytes.length).1 = countersOf (ps ++ [p.bytes]) := by
  have hstep : (packetCounterSystem 1).step (countersOf ps, buffer)
      ⟨p, statisticsLine 1 (packetCounterBody (countersOf ps) buffer p.bytes.length).1,
        (packetCounterBody (countersOf ps) buffer p.bytes.length).2.frame⟩
      ((packetCounterBody (countersOf ps) buffer p.bytes.length).1, buffer) :=
    ⟨_, ⟨rfl, h, fun _ _ => rfl⟩, rfl, rfl, rfl⟩
  exact (packetCounter_step hstep).countersOf

/-- The line that a packet counter prints when it has taken `ps`, if it prints one. -/
def statisticsReport (nodeName : CString) (logInterval : Int) (ps : List (List UInt8)) : Option CString :=
  (statisticsLine logInterval (countersOf ps)).map (statisticsText nodeName)

theorem packetCounterTexts_countersOf (p : Packet) (h : buffer.bytes p.bytes.length = p.bytes)
    (ps : List (List UInt8)) : packetCounterTexts nodeName logInterval (countersOf ps) buffer p.bytes.length =
      (statisticsReport nodeName logInterval (ps ++ [p.bytes])).toList := by
  have hpos := p.length_pos
  have hone : ¬ (p.bytes.length : Int) < 1 := by omega
  rw [packetCounterTexts, if_neg hone, packetCounterBody_countersOf p h]
  rfl

theorem toNat_ofInt_of_lt (hpos : 0 ≤ logInterval) (hle : logInterval < 2 ^ 31) :
    (UInt64.ofInt logInterval).toNat = logInterval.toNat := by
  rw [UInt64.ofInt, UInt64.toNat_ofNat']
  omega

/-- The test of `log_interval`, while neither number is too long for its word. -/
theorem logsPacket_iff {n : Nat} (hn : n < 2 ^ 64) (hle : logInterval < 2 ^ 31) :
    logsPacket logInterval (UInt64.ofNat n) = true ↔ (max 1 logInterval).toNat ∣ n := by
  by_cases hone : logInterval ≤ 1
  · have hmax : (max 1 logInterval).toNat = 1 := by omega
    rw [hmax]
    simp only [logsPacket, hone, decide_true, Bool.true_or, Nat.one_dvd]
  · have hmax : (max 1 logInterval).toNat = logInterval.toNat := by omega
    have hinterval : (UInt64.ofInt logInterval).toNat = logInterval.toNat :=
      toNat_ofInt_of_lt (by omega) hle
    rw [hmax, Nat.dvd_iff_mod_eq_zero, logsPacket]
    simp only [hone, decide_false, Bool.false_or, beq_iff_eq, ← UInt64.toNat_inj, UInt64.toNat_mod,
      UInt64.toNat_ofNat_of_lt' hn, hinterval]
    rfl

/-- How many packets are shown. -/
theorem length_dumpReports {ps : List (List UInt8)} (hps : ps.length < 2 ^ 64) (hle : logInterval < 2 ^ 31) :
    (reports (dumpReport logInterval) ps).length = ps.length / (max 1 logInterval).toNat := by
  refine length_reports fun qs hne hqs => ?_
  rw [← logsPacket_iff (hqs.trans_lt hps) hle, dumpReport, List.getLast?_eq_some_getLast hne]
  cases logsPacket logInterval (UInt64.ofNat qs.length) <;> simp

/-- How many lines of statistics there are. -/
theorem length_statisticsReports {ps : List (List UInt8)} (hps : ps.length < 2 ^ 64) (hpos : 0 < logInterval)
    (hle : logInterval < 2 ^ 31) :
    (reports (statisticsReport nodeName logInterval) ps).length = ps.length / logInterval.toNat := by
  refine length_reports fun qs _ hqs => ?_
  have htotal : (countersOf qs).totalPackets.toNat = qs.length :=
    UInt64.toNat_ofNat_of_lt' (hqs.trans_lt hps)
  have hinterval : (UInt64.ofInt logInterval).toNat = logInterval.toNat :=
    toNat_ofInt_of_lt hpos.le hle
  rw [statisticsReport, Option.isSome_map, statisticsLine, Nat.dvd_iff_mod_eq_zero, ← htotal, ← hinterval,
    ← UInt64.toNat_mod, ← UInt64.toNat_zero, UInt64.toNat_inj]
  split_ifs with h <;> simp [h]

/-- With an interval of at most 1 every packet is shown. -/
theorem dumpReports_all (hle : logInterval ≤ 1) (ps : List (List UInt8)) :
    (reports (dumpReport logInterval) ps).map ShownPacket.bytes = ps := by
  have hlast : ∀ qs : List (List UInt8), (dumpReport logInterval qs).map ShownPacket.bytes = qs.getLast? := by
    intro qs
    simp only [dumpReport, logsPacket, hle, decide_true, Bool.true_or, if_true, Option.map_map]
    exact Option.map_id'
  rw [map_reports, reports_congr fun qs _ => hlast qs, reports_getLast?]

end

end VlanTagger.Nodes
