import VlanTagger.Lib.ByteOrder
import VlanTagger.Queue.Fifo

/-!
# What a node does with a packet

Every node runs the same loop: test `should_exit`, get a packet into its buffer by
`pop` or, in the sniffer, by `recvfrom`, work on it, and go back to the test. What
the work ends in is an `Effect`. The buffers live on the stack of the loop and keep their old bytes from
one packet to the next.
-/
namespace VlanTagger.Nodes

open Lib

/-- `ETHERNET_FRAME_LENGTH` -/
def ethernetFrameLength : Nat := 1522

/-- `ETH_HLEN` -/
def ethHlen : Nat := 14

/-- `ETH_DATA_LEN` -/
def ethDataLen : Nat := 1500

/-- `ETH_P_IP` -/
def ethPIp : UInt16 := 0x0800

/-- `ETH_P_8021Q` -/
def ethP8021Q : UInt16 := 0x8100

/-- `ETH_P_IPV6` -/
def ethPIpv6 : UInt16 := 0x86DD

/-- How the loop body of a node ends. -/
inductive Effect
  /-- `continue`, or the end of the body -/
  | next
  /-- `break` -/
  | leave
  /-- `*node->should_exit = 1`, then `return` -/
  | giveUp
  /-- `node_send_to_outputs(node, buffer, size)` -/
  | sendToOutputs (buffer : Memory UInt8) (size : UInt16)
  /-- the `push` of the dispatcher to `output_queues[target_index]` -/
  | pushTo (targetIndex : Nat) (buffer : Memory UInt8) (size : UInt16)
  /-- `sendto(ctx->socket, buffer, len, ..)` -/
  | sendto (buffer : Memory UInt8) (len : Nat)

/-- The frame that an effect passes on, if it passes one on. -/
def Effect.frame : Effect → Option (List UInt8)
  | .next => none
  | .leave => none
  | .giveUp => none
  | .sendToOutputs buffer size => some (buffer.bytes size.toNat)
  | .pushTo _ buffer size => some (buffer.bytes size.toNat)
  | .sendto buffer len => some (buffer.bytes len)

/-- The size of a packet is passed on as an `unsigned short`. -/
theorem ofInt_natCast {n : Nat} (h : n < 65536) : UInt16.ofInt (n : Int) = UInt16.ofNat n := by
  have hmod : ((n : Int) % 2 ^ 16).toNat = n := by omega
  rw [UInt16.ofInt, hmod]

theorem toNat_ofInt {n : Nat} (h : n < 65536) : (UInt16.ofInt (n : Int)).toNat = n := by
  rw [ofInt_natCast h, toNat_ofNat16 h]

/-- A buffer that holds `l` is passed on as `l`. -/
theorem frame_sendToOutputs {buffer : Memory UInt8} {l : List UInt8} (h : buffer.bytes l.length = l)
    (hlt : l.length < 65536) : (Effect.sendToOutputs buffer (UInt16.ofInt l.length)).frame = some l := by
  rw [Effect.frame, toNat_ofInt hlt, h]

end VlanTagger.Nodes
