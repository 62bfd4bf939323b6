import VlanTagger.Lib.ByteOrder
import VlanTagger.Nodes.Workers

/-!
# The IP modifier of nodes/src/ip_modifier_node.c

`short` values are compared as signed numbers, as the source does.
-/
namespace VlanTagger.Nodes

open Lib

structure IpModifierContext where
  /-- In network byte order. -/
  newIp : UInt32
  deriving DecidableEq

/-- The value of the `short` variable `type_field` read at `off`. -/
def typeField (buffer : Memory UInt8) (off : Nat) : Int :=
  let w := (buffer off).toNat * 256 + (buffer (off + 1)).toNat
  if w < 32768 then w else w - 65536

def isIpPacket (buffer : Memory UInt8) : Bool :=
  let field := typeField buffer 12
  let field := if field = 0x8100 then typeField buffer 16 else field
  field = 0x0800

/-- The loop that sums the header words from offset `i` on, while `i < ihl`. -/
def headerSum (buffer : Memory UInt8) (ipOffset ihl : Nat) : Nat → Nat → UInt32
  | 0, _ => 0
  | n + 1, i =>
    if i < ihl then
      let word := (buffer (ipOffset + i)).toUInt16 <<< 8 ||| (buffer (ipOffset + i + 1)).toUInt16
      word.toUInt32 + headerSum buffer ipOffset ihl n (i + 2)
    else 0

/-- `while (checksum >> 16)`; the second pass leaves at most 16 bits. -/
def foldChecksum : Nat → UInt32 → UInt32
  | 0, checksum => checksum
  | n + 1, checksum =>
    if checksum >>> 16 = 0 then checksum
    else foldChecksum n ((checksum &&& (0xFFFF : UInt32)) + (checksum >>> 16))

def modifyDestinationIp (host : ByteOrder) (buffer : Memory UInt8) (newIp : UInt32) : Memory UInt8 :=
  let ipOffset := if typeField buffer 12 = 0x8100 then 18 else 14
  let buffer := buffer.memcpy (ipOffset + 16) (host.store32 newIp) 4
  let ihl := (buffer ipOffset &&& 0x0F).toNat * 4
  let buffer := buffer.memcpy (ipOffset + 10) (fun _ => 0) 2
  let checksum := ~~~ foldChecksum 3 (headerSum buffer ipOffset ihl 30 0)
  buffer.memcpy (ipOffset + 10)
    (Memory.ofList [((checksum >>> 8) &&& 0xFF).toUInt8, (checksum &&& 0xFF).toUInt8] 0) 2

/-- The buffer after the body of `ip_modifier_node_process`, and its effect. -/
def ipModifierBody (host : ByteOrder) (ctx : IpModifierContext) (buffer : Memory UInt8)
    (packetSize : Int) : Memory UInt8 × Effect :=
  if packetSize < 1 then (buffer, popFailed packetSize)
  else if packetSize < 46 then (buffer, .next)
  else
    let buffer := if isIpPacket buffer then modifyDestinationIp host buffer ctx.newIp else buffer
    (buffer, .sendToOutputs buffer (UInt16.ofInt packetSize))

end VlanTagger.Nodes
