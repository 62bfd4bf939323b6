import VlanTagger.ConfigParser.Model
import VlanTagger.Nodes.Node

/-!
# The tagger of nodes/src/tagger_node.c

One definition for each function. `taggerBody` is the loop body of
`tagger_node_process` behind `pop`, which has returned `packetSize`.
-/
namespace VlanTagger.Nodes

open Lib ConfigParser

/-- `VLAN_VID_MASK` -/
def vlanVidMask : UInt16 := 0x0fff

/-- `VLAN_HLEN` -/
def vlanHlen : UInt16 := 4

/-- `IP_HEADER_MIN_LEN` -/
def ipHeaderMinLen : Nat := 20

/-- `tagger_rule_t`; the addresses are in host byte order. -/
structure TaggerRule where
  ipLeft : UInt32
  ipRight : UInt32
  tag : Int
  deriving DecidableEq

/-- `TaggerContext`; `tag_rules_size` is the length of the list. -/
structure TaggerContext where
  tagRules : List TaggerRule
  deriving DecidableEq

/-- The copy of a loaded rule. -/
def taggerRule (host : ByteOrder) (r : TagRule) : TaggerRule :=
  ⟨host.ntohl r.ipLeft, host.ntohl r.ipRight, r.tag⟩

/-- `tagger_node_create` on the first `tag_rules_size` rules, when memory suffices. -/
def taggerNodeCreate (host : ByteOrder) (tagRules : List TagRule) : Option TaggerContext :=
  if tagRules = [] then none else some ⟨tagRules.map (taggerRule host)⟩

def taggerNodeGetTag (addr : UInt32) : List TaggerRule → Int
  | [] => 0
  | r :: rs => if r.ipLeft ≤ addr ∧ addr ≤ r.ipRight then r.tag else taggerNodeGetTag addr rs

/-- `tagger_node_get_ip_offset`: the pointer to the IP header, or `NULL`. -/
def taggerNodeGetIpOffset (host : ByteOrder) (buffer : Memory UInt8) : Option (Memory UInt8) :=
  let etherType := host.ntohs (host.load16 (buffer.advance 12))
  if etherType.toNat ≤ ethDataLen then none
  else if etherType = ethPIpv6 ∨ etherType = ethP8021Q then none
  else if etherType = ethPIp then some (buffer.advance ethHlen)
  else none

def taggerNodeGetIp (host : ByteOrder) (ipBuffer : Memory UInt8) : UInt32 :=
  match taggerNodeGetIpOffset host ipBuffer with
  | none => 0
  | some ipOffset => host.ntohl (host.load32 (ipOffset.advance 16))

/-- `tagger_node_edit_packet`: the output buffer and the returned size. -/
def taggerNodeEditPacket (host : ByteOrder) (inputBuffer outputBuffer : Memory UInt8)
    (vlanId packetSize : UInt16) : Memory UInt8 × UInt16 :=
  let outputBuffer := outputBuffer.memcpy 0 inputBuffer 12
  let tpid := host.htons ethP8021Q
  let outputBuffer := outputBuffer.memcpy 12 (host.store16 tpid) 2
  let tci := host.htons (vlanId &&& vlanVidMask)
  let outputBuffer := outputBuffer.memcpy 14 (host.store16 tci) 2
  let outputBuffer := outputBuffer.memcpy 16 (inputBuffer.advance 12) (packetSize.toNat - 12)
  (outputBuffer, packetSize + vlanHlen)

/-- The output buffer after one packet and what happens to the packet. -/
def taggerBody (host : ByteOrder) (ctx : TaggerContext) (buffer outputBuffer : Memory UInt8)
    (packetSize : Int) : Memory UInt8 × Effect :=
  if packetSize < 1 then (outputBuffer, if packetSize = 0 then .next else .leave)
  else if packetSize < ethHlen + ipHeaderMinLen then (outputBuffer, .next)
  else
    let addr := taggerNodeGetIp host buffer
    if addr = 0 then (outputBuffer, .next)
    else
      let tag := taggerNodeGetTag addr ctx.tagRules
      if tag = 0 then (outputBuffer, .next)
      else
        let (outputBuffer, size) := taggerNodeEditPacket host buffer outputBuffer
          (UInt16.ofInt tag) (UInt16.ofInt packetSize)
        (outputBuffer, .sendToOutputs outputBuffer size)

end VlanTagger.Nodes
