import VlanTagger.Lib.Ring
import VlanTagger.Lib.Transition
import VlanTagger.Queue.Model

/-!
# The queue is a bounded FIFO

What the queue is for is stated on lists: `FifoStep` says what each call returns
and does to a list of at most `Q_SIZE` packets. The slot arrays, read as a ring
whose empty slots are those of size zero, represent such a list, every call
keeps it so, and therefore every run of calls by any threads is a run of the
list.
-/
namespace VlanTagger.Queue

open Lib

/-- What a slot can hold: a non-empty packet of at most `MAX_PKG_SIZE` bytes. -/
structure Packet where
  bytes : List UInt8
  length_pos : 0 < bytes.length
  length_le : bytes.length ≤ maxPkgSize

@[ext] theorem Packet.ext {p p' : Packet} (h : p.bytes = p'.bytes) : p = p' := by
  cases p; cases p'; cases h; rfl

/-- The packet in the first `size` bytes of a buffer. -/
def Packet.ofBuffer (buf : Memory UInt8) (size : UInt16) (hpos : size ≠ 0)
    (hle : size.toNat ≤ maxPkgSize) : Packet where
  bytes := buf.bytes size.toNat
  length_pos := by
    rw [Memory.length_bytes]
    exact Nat.pos_of_ne_zero fun h => hpos (UInt16.toNat.inj h)
  length_le := by rw [Memory.length_bytes]; exact hle

/-! ## The calls and what they mean for a list -/

/-- One call with the buffer it was given, the buffer it left and its return value. -/
inductive Call
  | push (buf : Memory UInt8) (size : UInt16) (ret : Int)
  | removeFront
  | pop (buff buff' : Memory UInt8) (ret : Int)
  | front (buff buff' : Memory UInt8) (ret : Int)
  | back (buff buff' : Memory UInt8) (ret : Int)

/-- The call returned the length of `p` and put exactly its bytes into the buffer. -/
def Delivered (p : Packet) (buff buff' : Memory UInt8) (ret : Int) : Prop :=
  ret = p.bytes.length ∧ buff'.bytes p.bytes.length = p.bytes ∧
    ∀ i, p.bytes.length ≤ i → buff' i = buff i

/-- `front` and `back` on the element they look at, if there is one. -/
def Peeked (p : Option Packet) (buff buff' : Memory UInt8) (ret : Int) : Prop :=
  match p with
  | none => ret = -1 ∧ buff' = buff
  | some p => Delivered p buff buff' ret

def FifoStep (items : List Packet) : Call → List Packet → Prop
  | .push buf size ret, items' =>
    if maxPkgSize < size.toNat then ret = -1 ∧ items' = items
    else if size = 0 then ret = 0 ∧ items' = items
    else if items.length < qSize then
      ret = size.toNat ∧ ∃ p : Packet, p.bytes = buf.bytes size.toNat ∧ items' = items ++ [p]
    else ret = 0 ∧ items' = items
  | .removeFront, items' => items' = items.tail
  | .pop buff buff' ret, items' => ∃ p, items = p :: items' ∧ Delivered p buff buff' ret
  | .front buff buff' ret, items' => Peeked items.head? buff buff' ret ∧ items' = items
  | .back buff buff' ret, items' => Peeked items.getLast? buff buff' ret ∧ items' = items

/-- The same calls on the representation. A `pop` step is a `pop` that returns. -/
def CallStep (q : QueueT) : Call → QueueT → Prop
  | .push buf size ret, q' => push q buf size = (ret, q')
  | .removeFront, q' => q' = removeFront q
  | .pop buff buff' ret, q' => pop q buff = some (ret, buff', q')
  | .front buff buff' ret, q' => front q buff = (ret, buff') ∧ q' = q
  | .back buff buff' ret, q' => back q buff = (ret, buff') ∧ q' = q

/-- Any threads, any interleaving: one label is one call by one thread. -/
def queueSystem (Tid : Type*) : System QueueT (Tid × Call) where
  init := fun q => ∃ uninitialised, q = init uninitialised
  step := fun q e q' => CallStep q e.2 q'

def fifoSystem (Tid : Type*) : System (List Packet) (Tid × Call) where
  init := fun items => items = []
  step := fun items e items' => FifoStep items e.2 items'

/-- Whatever the state of the queue: `push` stores a packet and returns its size, or it
leaves the queue alone. -/
theorem push_cases {q q' : QueueT} {buf : Memory UInt8} {size : UInt16} {ret : Int}
    (call : push q buf size = (ret, q')) : (ret = size.toNat ∧ size ≠ 0) ∨ (ret ≤ 0 ∧ q' = q) := by
  unfold push at call
  by_cases hgt : maxPkgSize < size.toNat
  · rw [if_pos hgt] at call
    cases call
    exact .inr ⟨by decide, rfl⟩
  rw [if_neg hgt] at call
  by_cases hz : size = 0
  · rw [if_pos hz] at call
    cases call
    exact .inr ⟨le_refl 0, rfl⟩
  rw [if_neg hz] at call
  split at call
  · cases call
    exact .inr ⟨le_refl 0, rfl⟩
  · cases call
    exact .inl ⟨rfl, hz⟩

/-- Whatever the state of the queue: a `push` does not empty it. -/
theorem isEmpty_push {q q' : QueueT} {buf : Memory UInt8} {size : UInt16} {ret : Int}
    (call : push q buf size = (ret, q')) (h : isEmpty q = false) : isEmpty q' = false := by
  have hfront : q.sizes q.front ≠ 0 := by
    intro h0
    rw [isEmpty, if_pos h0] at h
    cases h
  unfold push at call
  split at call
  · cases call
    exact h
  split at call
  · cases call
    exact h
  next hsize =>
  split at call
  · cases call
    exact h
  · cases call
    rw [isEmpty, if_neg]
    show Function.update q.sizes q.rear size q.front ≠ 0
    rw [Function.update_apply]
    split
    · exact hsize
    · exact hfront

theorem pop_eq_none_iff {q : QueueT} {buff : Memory UInt8} :
    pop q buff = none ↔ isEmpty q = true := by
  unfold pop
  cases isEmpty q <;> simp

theorem FifoStep.length_push {items items' : List Packet} {buf : Memory UInt8} {size : UInt16}
    {ret : Int} (h : FifoStep items (.push buf size ret) items') :
    items'.length ≤ items.length + 1 := by
  have hsame : ∀ {r : Int}, ret = r ∧ items' = items → items'.length ≤ items.length + 1 := by
    rintro r ⟨-, rfl⟩
    omega
  simp only [FifoStep] at h
  split at h
  · exact hsame h
  · split at h
    · exact hsame h
    · split at h
      · obtain ⟨-, p, -, rfl⟩ := h
        simp
      · exact hsame h

/-! ## The representation -/

/-- The slots as a ring: a slot is empty when its size is zero. -/
def ring (q : QueueT) : Ring qSize (List UInt8) where
  slot := fun i => if q.sizes i = 0 then none else some ((q.queue i).bytes (q.sizes i).toNat)
  front := q.front
  rear := q.rear

def Represents (q : QueueT) (items : List Packet) : Prop :=
  (ring q).Represents (items.map Packet.bytes)

theorem next_eq_after (i : Fin qSize) : next i = Ring.after i 1 := by
  have hi := i.isLt
  apply Fin.ext
  unfold next Ring.after
  split
  · rename_i h
    simp only [h, qSize]
  · rename_i h
    exact (Nat.mod_eq_of_lt (by omega)).symm

theorem after_backCursor (q : QueueT) : Ring.after (backCursor q) 1 = q.rear := by
  have hr := q.rear.isLt
  apply Fin.ext
  unfold backCursor Ring.after
  split
  · rename_i h
    exact h.symm
  · rename_i h
    show (q.rear.val - 1 + 1) % qSize = q.rear.val
    rw [Nat.sub_add_cancel (Nat.pos_of_ne_zero h)]
    exact Nat.mod_eq_of_lt hr

theorem slot_eq_none_iff (q : QueueT) (i : Fin qSize) : (ring q).slot i = none ↔ q.sizes i = 0 := by
  simp [ring]

theorem isFull_eq_false_iff (q : QueueT) : isFull q = false ↔ (ring q).slot (ring q).rear = none := by
  rw [slot_eq_none_iff]
  simp [isFull, ring]

theorem isEmpty_eq_true_iff (q : QueueT) : isEmpty q = true ↔ (ring q).slot (ring q).front = none := by
  rw [slot_eq_none_iff]
  simp [isEmpty, ring]

/-- The ring after the write of `push`. -/
theorem ring_push (q : QueueT) (buf : Memory UInt8) (size : UInt16) (hpos : size ≠ 0) :
    ring { q with
        queue := Function.update q.queue q.rear ((q.queue q.rear).memcpy 0 buf size.toNat)
        sizes := Function.update q.sizes q.rear size
        rear := next q.rear } =
      { ring q with
        slot := Function.update (ring q).slot (ring q).rear (some (buf.bytes size.toNat))
        rear := Ring.after (ring q).rear 1 } := by
  unfold ring
  simp only [Ring.mk.injEq, true_and]
  refine ⟨?_, next_eq_after q.rear⟩
  funext i
  by_cases hi : i = q.rear
  · subst hi
    simp only [Function.update_self, hpos, if_false, Memory.bytes_memcpy_zero]
  · simp only [Function.update_of_ne hi]

/-- The ring after `pop` or `remove_front` emptied the front slot. -/
theorem ring_drop (q : QueueT) :
    ring { q with sizes := Function.update q.sizes q.front 0, front := next q.front } =
      { ring q with
        slot := Function.update (ring q).slot (ring q).front none
        front := Ring.after (ring q).front 1 } := by
  unfold ring
  simp only [Ring.mk.injEq, and_true]
  refine ⟨?_, next_eq_after q.front⟩
  funext i
  by_cases hi : i = q.front
  · subst hi
    simp only [Function.update_self, if_true]
  · simp only [Function.update_of_ne hi]

theorem represents_init (q : QueueT) : Represents (init q) [] := by
  apply Ring.represents_nil
  · intro i; rw [slot_eq_none_iff]; rfl
  · rfl

namespace Represents

variable {q : QueueT} {items : List Packet}

theorem length_le (h : Represents q items) : items.length ≤ qSize := by
  have hl := Ring.Represents.length_le h
  rwa [List.length_map] at hl

theorem rear_eq (h : Represents q items) : q.rear = Ring.after q.front items.length := by
  have hr := Ring.Represents.rear_eq h
  rwa [List.length_map] at hr

theorem sizes_ne_zero_iff (h : Represents q items) (i : Fin qSize) :
    q.sizes i ≠ 0 ↔ ∃ k < items.length, i = Ring.after q.front k := by
  have ho := Ring.Represents.occupied_iff h i
  rwa [ne_eq, slot_eq_none_iff, List.length_map] at ho

theorem isEmpty_iff (h : Represents q items) : isEmpty q = true ↔ items = [] := by
  rw [isEmpty_eq_true_iff, Ring.Represents.front_empty_iff h, List.map_eq_nil_iff]

theorem isFull_iff (h : Represents q items) : isFull q = true ↔ items.length = qSize := by
  have hf := isFull_eq_false_iff q
  rw [Ring.Represents.rear_empty_iff h, List.length_map] at hf
  rw [← Bool.not_eq_false, hf]
  have hl := h.length_le
  omega

/-- A queue determines the list it represents. -/
theorem unique {items' : List Packet} (h : Represents q items) (h' : Represents q items') :
    items = items' := by
  have hb : items.map Packet.bytes = items'.map Packet.bytes := by
    apply List.ext_getElem?
    intro k
    by_cases hk : k < qSize
    · rw [← Ring.Represents.contents h k hk, ← Ring.Represents.contents h' k hk]
    · rw [List.getElem?_eq_none (by have := Ring.Represents.length_le h; omega),
        List.getElem?_eq_none (by have := Ring.Represents.length_le h'; omega)]
  exact List.map_injective_iff.mpr (fun p p' hp => Packet.ext hp) hb

/-- The slot that holds `p` has its length and its bytes. -/
theorem slot_spec {i : Fin qSize} {p : Packet} (hs : (ring q).slot i = some p.bytes) :
    (q.sizes i).toNat = p.bytes.length ∧ (q.queue i).bytes p.bytes.length = p.bytes := by
  simp only [ring] at hs
  split at hs
  · cases hs
  · have hb := Option.some.inj hs
    have hl : (q.sizes i).toNat = p.bytes.length := by
      rw [← hb, Memory.length_bytes]
    exact ⟨hl, by rw [← hl]; exact hb⟩

theorem delivered {i : Fin qSize} {p : Packet} (hs : (ring q).slot i = some p.bytes)
    (buff : Memory UInt8) :
    Delivered p buff (buff.memcpy 0 (q.queue i) (q.sizes i).toNat) (q.sizes i).toNat := by
  obtain ⟨hl, hb⟩ := slot_spec hs
  rw [hl]
  refine ⟨rfl, ?_, ?_⟩
  · rw [Memory.bytes_memcpy_zero, hb]
  · intro j hj
    exact Memory.memcpy_of_ge buff (q.queue i) (by omega)

theorem front_slot {p : Packet} (h : Represents q (p :: items)) :
    (ring q).slot q.front = some p.bytes := by
  have hf := Ring.Represents.front_slot h
  exact hf

theorem back_slot {p : Packet} (h : Represents q items) (hp : items.getLast? = some p) :
    (ring q).slot (backCursor q) = some p.bytes := by
  have hne : items ≠ [] := by
    rintro rfl
    cases hp
  have hl := Ring.Represents.last_slot h (after_backCursor q) (by simpa using hne)
  rw [hl, List.getLast?_map, hp]
  rfl

/-- `push` on a queue with room. -/
theorem push_room (h : Represents q items) (hl : items.length < qSize) (buf : Memory UInt8)
    (size : UInt16) (hpos : size ≠ 0) (hle : size.toNat ≤ maxPkgSize) :
    (push q buf size).1 = size.toNat ∧
    Represents (push q buf size).2 (items ++ [Packet.ofBuffer buf size hpos hle]) := by
  have hf : ¬ isFull q = true := by rw [h.isFull_iff]; omega
  have hgt : ¬ maxPkgSize < size.toNat := Nat.not_lt.mpr hle
  have hr := Ring.Represents.push h (by rwa [List.length_map]) (buf.bytes size.toNat)
  unfold push
  rw [if_neg hgt, if_neg hpos, if_neg hf]
  refine ⟨rfl, ?_⟩
  rw [Represents, ring_push q buf size hpos, List.map_append]
  exact hr

/-- `push` on a full queue. -/
theorem push_full (h : Represents q items) (hl : ¬ items.length < qSize) (buf : Memory UInt8)
    (size : UInt16) (hpos : size ≠ 0) (hle : size.toNat ≤ maxPkgSize) :
    push q buf size = (0, q) := by
  have hf : isFull q = true := by
    rw [h.isFull_iff]
    have hl' := h.length_le
    omega
  have hgt : ¬ maxPkgSize < size.toNat := Nat.not_lt.mpr hle
  unfold push
  rw [if_neg hgt, if_neg hpos, if_pos hf]

/-- Only a full queue refuses a packet of a legal size. -/
theorem full_of_refused (h : Represents q items) {buf : Memory UInt8} {size : UInt16} {ret : Int}
    {q' : QueueT} (call : push q buf size = (ret, q')) (hpos : size ≠ 0)
    (hle : size.toNat ≤ maxPkgSize) (hret : ¬ 0 < ret) : items.length = qSize := by
  have hmax := h.length_le
  by_contra hne
  obtain ⟨hroom, -⟩ := h.push_room (by omega) buf size hpos hle
  rw [call] at hroom
  change ret = size.toNat at hroom
  have hz : size.toNat ≠ 0 := fun h0 => hpos (UInt16.toNat.inj h0)
  omega

/-- What any `push` does to the packets, by its return value. -/
theorem push_stored (h : Represents q items) {buf : Memory UInt8} {size : UInt16} {ret : Int}
    {q' : QueueT} (call : push q buf size = (ret, q')) :
    (0 < ret ∧ ∃ p : Packet, p.bytes = buf.bytes size.toNat ∧ Represents q' (items ++ [p])) ∨
      (¬ 0 < ret ∧ q' = q) := by
  rcases push_cases call with ⟨hret, hz⟩ | ⟨hret, hq⟩
  · have hpos : 0 < size.toNat := Nat.pos_of_ne_zero fun h0 => hz (UInt16.toNat.inj h0)
    have hle : size.toNat ≤ maxPkgSize := by
      by_contra hgt
      rw [push, if_pos (Nat.not_le.mp hgt)] at call
      cases call
      omega
    have hl : items.length < qSize := by
      by_contra hfull
      rw [h.push_full hfull buf size hz hle] at call
      cases call
      omega
    obtain ⟨-, hrep⟩ := h.push_room hl buf size hz hle
    rw [call] at hrep
    exact .inl ⟨by omega, _, rfl, hrep⟩
  · exact .inr ⟨by omega, hq⟩

/-- Emptying the front slot and advancing `front`, as `pop` and `remove_front` do. -/
theorem drop_front {p : Packet} (h : Represents q (p :: items)) :
    Represents { q with sizes := Function.update q.sizes q.front 0, front := next q.front }
      items := by
  rw [Represents, ring_drop]
  exact Ring.Represents.pop h

theorem pop_nil (h : Represents q []) (buff : Memory UInt8) : pop q buff = none := by
  have he : isEmpty q = true := h.isEmpty_iff.mpr rfl
  exact if_pos he

theorem pop_cons {p : Packet} (h : Represents q (p :: items)) (buff : Memory UInt8) :
    ∃ buff' q', pop q buff = some ((p.bytes.length : Int), buff', q') ∧
      Delivered p buff buff' p.bytes.length ∧ Represents q' items := by
  have he : ¬ isEmpty q = true := by rw [h.isEmpty_iff]; exact List.cons_ne_nil _ _
  have hd := delivered h.front_slot buff
  have hl := (slot_spec h.front_slot).1
  unfold pop
  rw [if_neg he]
  simp only [hl] at hd ⊢
  exact ⟨_, _, rfl, hd, h.drop_front⟩

theorem removeFront_nil (h : Represents q []) : removeFront q = q := by
  have he : isEmpty q = true := h.isEmpty_iff.mpr rfl
  exact if_pos he

theorem removeFront_cons {p : Packet} (h : Represents q (p :: items)) :
    Represents (removeFront q) items := by
  have he : ¬ isEmpty q = true := by rw [h.isEmpty_iff]; exact List.cons_ne_nil _ _
  unfold removeFront
  rw [if_neg he]
  exact h.drop_front

theorem front_spec (h : Represents q items) (buff : Memory UInt8) :
    Peeked items.head? buff (front q buff).2 (front q buff).1 := by
  cases items with
  | nil =>
    have he : isEmpty q = true := h.isEmpty_iff.mpr rfl
    unfold front
    rw [if_pos he]
    exact ⟨rfl, rfl⟩
  | cons p items =>
    have he : ¬ isEmpty q = true := by rw [h.isEmpty_iff]; exact List.cons_ne_nil _ _
    unfold front
    rw [if_neg he]
    exact delivered h.front_slot buff

theorem back_spec (h : Represents q items) (buff : Memory UInt8) :
    Peeked items.getLast? buff (back q buff).2 (back q buff).1 := by
  cases hp : items.getLast? with
  | none =>
    have hn : items = [] := List.getLast?_eq_none_iff.mp hp
    have he : isEmpty q = true := h.isEmpty_iff.mpr hn
    unfold back
    rw [if_pos he]
    exact ⟨rfl, rfl⟩
  | some p =>
    have he : ¬ isEmpty q = true := by
      rw [h.isEmpty_iff]
      rintro rfl
      cases hp
    unfold back
    rw [if_neg he]
    exact delivered (h.back_slot hp) buff

end Represents

/-! ## Every call refines its list step -/

/-- One call: it does to the list what `FifoStep` says, and a call that leaves
the list alone leaves the whole representation alone. -/
theorem callStep_refines {q q' : QueueT} {items : List Packet} (h : Represents q items) {c : Call}
    (hs : CallStep q c q') :
    ∃ items', FifoStep items c items' ∧ Represents q' items' ∧ (items' = items → q' = q) := by
  cases c with
  | push buf size ret =>
    simp only [CallStep] at hs
    by_cases hgt : maxPkgSize < size.toNat
    · unfold push at hs
      rw [if_pos hgt] at hs
      cases hs
      exact ⟨items, by simp [FifoStep, hgt], h, fun _ => rfl⟩
    by_cases hz : size = 0
    · unfold push at hs
      rw [if_neg hgt, if_pos hz] at hs
      cases hs
      exact ⟨items, by subst hz; simp [FifoStep], h, fun _ => rfl⟩
    by_cases hl : items.length < qSize
    · obtain ⟨hret, hrep⟩ := h.push_room hl buf size hz (Nat.not_lt.mp hgt)
      rw [hs] at hret hrep
      refine ⟨_, ?_, hrep, fun he => ?_⟩
      · simp only [FifoStep, hgt, hz, hl, if_false, if_true]
        exact ⟨hret, _, rfl, rfl⟩
      · exact absurd (congrArg List.length he) (by simp)
    · rw [h.push_full hl buf size hz (Nat.not_lt.mp hgt)] at hs
      cases hs
      exact ⟨items, by simp [FifoStep, hgt, hz, hl], h, fun _ => rfl⟩
  | removeFront =>
    simp only [CallStep] at hs
    subst hs
    cases items with
    | nil => exact ⟨[], rfl, by rwa [h.removeFront_nil], fun _ => h.removeFront_nil⟩
    | cons p items =>
      refine ⟨items, rfl, h.removeFront_cons, fun he => ?_⟩
      exact absurd (congrArg List.length he) (by simp)
  | pop buff buff' ret =>
    simp only [CallStep] at hs
    cases items with
    | nil =>
      rw [h.pop_nil] at hs
      cases hs
    | cons p items =>
      obtain ⟨b, q₁, hp, hd, hr⟩ := h.pop_cons buff
      rw [hp] at hs
      cases hs
      refine ⟨items, ⟨p, rfl, hd⟩, hr, fun he => ?_⟩
      exact absurd (congrArg List.length he) (by simp)
  | front buff buff' ret =>
    obtain ⟨hs, rfl⟩ := hs
    have hf := h.front_spec buff
    rw [hs] at hf
    exact ⟨items, ⟨hf, rfl⟩, h, fun _ => rfl⟩
  | back buff buff' ret =>
    obtain ⟨hs, rfl⟩ := hs
    have hb := h.back_spec buff
    rw [hs] at hb
    exact ⟨items, ⟨hb, rfl⟩, h, fun _ => rfl⟩

theorem queue_simulation (Tid : Type*) :
    System.Simulation (queueSystem Tid) (fifoSystem Tid) Represents where
  start := by
    rintro q ⟨q₀, rfl⟩
    exact ⟨[], rfl, represents_init q₀⟩
  step := by
    intro q q' items e h hs
    obtain ⟨items', hf, hr, _⟩ := callStep_refines h hs
    exact ⟨items', hf, hr⟩

/-- Every run of calls from `init` is, label by label, a run of a list of at most
`Q_SIZE` packets. In the state it reaches, the non-zero sizes are exactly those
of the slots `front, .., front + length - 1`, `rear` follows them, fullness and
emptiness are read correctly, and every next call refines the list again. -/
theorem queue_refines_fifo {Tid : Type*} {tr : List (Tid × Call)} {q : QueueT}
    (h : (queueSystem Tid).Run tr q) :
    ∃ items : List Packet, (fifoSystem Tid).Run tr items ∧
      items.length ≤ qSize ∧
      (∀ i, q.sizes i ≠ 0 ↔ ∃ k < items.length, i.val = (q.front.val + k) % qSize) ∧
      q.rear.val = (q.front.val + items.length) % qSize ∧
      (isFull q = true ↔ items.length = qSize) ∧ (isEmpty q = true ↔ items = []) ∧
      Represents q items ∧
      ∀ e q', (queueSystem Tid).step q e q' → ∃ items', (fifoSystem Tid).step items e items' ∧
        Represents q' items' ∧ (items' = items → q' = q) := by
  obtain ⟨items, hrun, hr⟩ := (queue_simulation Tid).run h
  refine ⟨items, hrun, hr.length_le, ?_, ?_, hr.isFull_iff, hr.isEmpty_iff, hr, ?_⟩
  · intro i
    rw [hr.sizes_ne_zero_iff]
    simp only [Fin.ext_iff, Ring.after]
  · rw [hr.rear_eq]
    rfl
  · intro e q' hs
    exact callStep_refines hr hs

/-- A queue before `init`. -/
def zeroed : QueueT := ⟨fun _ _ => 0, fun _ => 0, ⟨0, qSize_pos⟩, ⟨0, qSize_pos⟩⟩

/-- Two threads push a packet each, and the first one pushed is popped. -/
theorem queue_refines_fifo_order :
    ∃ (buff : Memory UInt8) (tr : List (Bool × Call)) (q : QueueT) (items : List Packet),
      tr = [(false, .push (fun _ => 7) 2 2), (true, .push (fun _ => 9) 1 1),
        (false, .pop (fun _ => 0) buff 2)] ∧
      (queueSystem Bool).Run tr q ∧ (fifoSystem Bool).Run tr items ∧ buff.bytes 2 = [7, 7] ∧
      items.map Packet.bytes = [[9]] := by
  obtain ⟨-, hone⟩ := (represents_init zeroed).push_room (by decide) (fun _ => 7) 2 (by decide)
    (by decide)
  obtain ⟨-, htwo⟩ := hone.push_room (by decide) (fun _ => 9) 1 (by decide) (by decide)
  obtain ⟨buff, q, hpop, ⟨-, hbytes, -⟩, hleft⟩ := htwo.pop_cons fun _ => 0
  have hrun0 : (queueSystem Bool).Run [] (init zeroed) := .start ⟨zeroed, rfl⟩
  have hrun1 := hrun0.snoc (e := (false, Call.push (fun _ => 7) 2 2)) rfl
  have hrun2 := hrun1.snoc (e := (true, Call.push (fun _ => 9) 1 1)) rfl
  have hrun3 := hrun2.snoc (e := (false, Call.pop (fun _ => 0) buff 2)) hpop
  obtain ⟨items, hfifo, -, -, -, -, -, hrep, -⟩ := queue_refines_fifo hrun3
  refine ⟨buff, _, q, items, rfl, hrun3, hfifo, hbytes, ?_⟩
  rw [hrep.unique hleft]
  rfl

end VlanTagger.Queue
