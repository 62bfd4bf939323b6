import VlanTagger.Nodes.Node

/-!
# The dispatcher, the counter, the collector, the logger, the sender and the sniffer

The loop bodies of nodes/src behind the call that got the packet, which has returned
`packetSize` or `rcvLen`. What is only printed is not part of these bodies: the log lines,
and with them `log_interval` and `log_packet_hex`.
-/
namespace VlanTagger.Nodes

open Lib

/-- The test that every `pop` is followed by: 0 goes on, anything else below 1 breaks. -/
def popFailed (packetSize : Int) : Effect := if packetSize = 0 then .next else .leave

/-! ## dispatcher_node.c -/

inductive DispatchStrategy
  | roundRobin
  | random
  deriving DecidableEq

structure DispatcherContext where
  strategy : DispatchStrategy
  nextIndex : Nat
  packetsSent : UInt64
  deriving DecidableEq

/-- `dispatcher_node_create` -/
def dispatcherNodeCreate (strategy : DispatchStrategy) : DispatcherContext := ⟨strategy, 0, 0⟩

/-- The body of `dispatcher_node_process` up to its `push`; `rand` is what `rand()` returns. -/
def dispatcherBody (ctx : DispatcherContext) (outputCount rand : Nat) (buffer : Memory UInt8)
    (packetSize : Int) : DispatcherContext × Effect :=
  if packetSize < 1 then (ctx, popFailed packetSize)
  else
    match ctx.strategy with
    | .roundRobin =>
      ({ ctx with nextIndex := (ctx.nextIndex + 1) % outputCount },
        .pushTo (ctx.nextIndex % outputCount) buffer (UInt16.ofInt packetSize))
    | .random => (ctx, .pushTo (rand % outputCount) buffer (UInt16.ofInt packetSize))

/-- What follows the `push` of the dispatcher, which has returned `ret`. -/
def dispatcherPushed (ctx : DispatcherContext) (ret packetSize : Int) : DispatcherContext :=
  if ret ≠ packetSize then ctx else { ctx with packetsSent := ctx.packetsSent + 1 }

/-! ## packet_counter_node.c -/

structure PacketCounterContext where
  totalPackets : UInt64
  totalBytes : UInt64
  vlanPackets : UInt64
  nonVlanPackets : UInt64
  deriving DecidableEq

/-- `packet_counter_node_create` -/
def packetCounterNodeCreate : PacketCounterContext := ⟨0, 0, 0, 0⟩

def isVlanPacket (buffer : Memory UInt8) (size : Int) : Bool :=
  if size < 16 then false
  else
    let tpid := (buffer 12).toUInt16 <<< 8 ||| (buffer 13).toUInt16
    tpid = 0x8100

def packetCounterBody (ctx : PacketCounterContext) (buffer : Memory UInt8) (packetSize : Int) :
    PacketCounterContext × Effect :=
  if packetSize < 1 then (ctx, popFailed packetSize)
  else
    let ctx := { ctx with
      totalPackets := ctx.totalPackets + 1
      totalBytes := ctx.totalBytes + UInt64.ofInt packetSize }
    let ctx :=
      if isVlanPacket buffer packetSize then { ctx with vlanPackets := ctx.vlanPackets + 1 }
      else { ctx with nonVlanPackets := ctx.nonVlanPackets + 1 }
    (ctx, .sendToOutputs buffer (UInt16.ofInt packetSize))

/-! ## collector_node.c -/

def collectorBody (buffer : Memory UInt8) (packetSize : Int) : Effect :=
  if packetSize < 1 then popFailed packetSize
  else .sendToOutputs buffer (UInt16.ofInt packetSize)

/-! ## logger_node.c -/

structure LoggerContext where
  packetCount : UInt64
  deriving DecidableEq

def loggerBody (ctx : LoggerContext) (buffer : Memory UInt8) (packetSize : Int) :
    LoggerContext × Effect :=
  if packetSize < 1 then (ctx, popFailed packetSize)
  else (⟨ctx.packetCount + 1⟩, .sendToOutputs buffer (UInt16.ofInt packetSize))

/-! ## sender_node.c -/

/-- `VLAN_ETH_FRAME_LEN` -/
def vlanEthFrameLen : Nat := 1518

/-- The body of `sender_node_process` up to its `sendto`. -/
def senderBody (buffer : Memory UInt8) (rcvLen : Int) (shouldExit : Bool) : Effect :=
  if vlanEthFrameLen ≤ rcvLen then .next
  else if rcvLen < 0 then (if shouldExit then .leave else .next)
  else .sendto buffer rcvLen.toNat

/-- What follows `sendto`: the error counter and the effect. -/
def senderSent (errCounter : Nat) (sent : Bool) : Nat × Effect :=
  if sent then (0, .next)
  else if errCounter = 3 then (errCounter, .giveUp)
  else (errCounter + 1, .next)

/-! ## sniffer_node.c -/

/-- `MAX_ERR_NUM` -/
def maxErrNum : UInt8 := 3

/-- The body of `sniffer_node_process` behind `recvfrom`. -/
def snifferBody (errCounter : UInt8) (buffer : Memory UInt8) (rcvLen : Int) : UInt8 × Effect :=
  if rcvLen < 0 then
    if maxErrNum ≤ errCounter then (errCounter, .giveUp) else (errCounter + 1, .next)
  else (0, .sendToOutputs buffer (UInt16.ofInt rcvLen))

end VlanTagger.Nodes
