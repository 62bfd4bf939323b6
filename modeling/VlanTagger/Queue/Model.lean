import Mathlib.Data.UInt
import VlanTagger.Lib.Memory

/-!
# The packet queue of queue/queue.c

One definition for each function. The indices `front` and `rear` are `uint16_t`
in the source and stay below `Q_SIZE`, because `next` wraps there: `Fin qSize`
carries that bound. The mutex and the condition variable are not part of the
value; every operation below is one critical section under `cond_mutex`. A
slot keeps the bytes of its last packet after the packet has been taken.
-/
namespace VlanTagger.Queue

open Lib

/-- `Q_SIZE` -/
def qSize : Nat := 1000

theorem qSize_pos : 0 < qSize := by decide

/-- `MAX_PKG_SIZE` -/
def maxPkgSize : Nat := 1522

/-- `Queue_t` -/
structure QueueT where
  queue : Fin qSize → Memory UInt8
  sizes : Fin qSize → UInt16
  front : Fin qSize
  rear : Fin qSize

def next (num : Fin qSize) : Fin qSize :=
  if h : num.val = qSize - 1 then ⟨0, by decide⟩
  else ⟨num.val + 1, by have hn := num.isLt; omega⟩

/-- `init`, when the mutex and the condition variable could be created. -/
def init (q : QueueT) : QueueT :=
  { q with front := ⟨0, by decide⟩, rear := ⟨0, by decide⟩, sizes := fun _ => 0 }

def isFull (q : QueueT) : Bool := if q.sizes q.rear = 0 then false else true

def isEmpty (q : QueueT) : Bool := if q.sizes q.front = 0 then true else false

def push (q : QueueT) (buf : Memory UInt8) (size : UInt16) : Int × QueueT :=
  if maxPkgSize < size.toNat then (-1, q)
  else if size = 0 then (0, q)
  else if isFull q then (0, q)
  else
    (size.toNat,
      { q with
        queue := Function.update q.queue q.rear ((q.queue q.rear).memcpy 0 buf size.toNat)
        sizes := Function.update q.sizes q.rear size
        rear := next q.rear })

def removeFront (q : QueueT) : QueueT :=
  if isEmpty q then q
  else { q with sizes := Function.update q.sizes q.front 0, front := next q.front }

/-- `pop` once the wait loop is over: `none` while the queue is empty and the
caller stays in `pthread_cond_wait`. -/
def pop (q : QueueT) (buff : Memory UInt8) : Option (Int × Memory UInt8 × QueueT) :=
  if isEmpty q then none
  else
    let size := q.sizes q.front
    some (size.toNat, buff.memcpy 0 (q.queue q.front) size.toNat,
      { q with sizes := Function.update q.sizes q.front 0, front := next q.front })

def front (q : QueueT) (buff : Memory UInt8) : Int × Memory UInt8 :=
  if isEmpty q then (-1, buff)
  else
    let size := q.sizes q.front
    (size.toNat, buff.memcpy 0 (q.queue q.front) size.toNat)

/-- The slot before `rear`, as `back` computes it. -/
def backCursor (q : QueueT) : Fin qSize :=
  if q.rear.val = 0 then ⟨qSize - 1, by decide⟩
  else ⟨q.rear.val - 1, by have hr := q.rear.isLt; omega⟩

def back (q : QueueT) (buff : Memory UInt8) : Int × Memory UInt8 :=
  if isEmpty q then (-1, buff)
  else
    let cursor := backCursor q
    let size := q.sizes cursor
    (size.toNat, buff.memcpy 0 (q.queue cursor) size.toNat)

end VlanTagger.Queue
