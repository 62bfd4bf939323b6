import VlanTagger.Lib.Turns
import VlanTagger.Nodes.Workers

/-!
# The dispatcher deals in turn

A run of the dispatcher is the list of the packets that `pop` delivered, each with the
`push` that it led to. What the queues hold at that moment is left open, so that any of
them may be full at any time.
-/
namespace VlanTagger.Nodes

open Lib Queue

/-- One packet, and the `push` to `output_queues[targetIndex]` that it led to. -/
structure Offer where
  packet : Packet
  targetIndex : Nat
  frame : List UInt8
  queue : QueueT
  queue' : QueueT
  ret : Int

/-- The frames offered to output `j`, in order. -/
def offered (tr : List Offer) (j : Nat) : List (List UInt8) :=
  (tr.filter fun e => e.targetIndex = j).map Offer.frame

end VlanTagger.Nodes
