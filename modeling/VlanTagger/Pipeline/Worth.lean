import Mathlib.Algebra.BigOperators.Fin
import Mathlib.Data.Fintype.BigOperators
import VlanTagger.Pipeline.Flow
import VlanTagger.Pipeline.Shutdown

/-!
# What a state of a pipeline is worth

A sum over the packets in the queues and over the places of the threads, with weights that
are free. `worth_step` says of every step where it takes a thread and which packet it moves,
and so how the sum changes, whatever the weights are; what a step costs then follows from
the weights alone.
-/
namespace VlanTagger.Pipeline

open Lib Nodes Queue

/-! ## What a state is worth -/

/-- The packets of a queue. -/
noncomputable def contents (q : QueueT) : List Packet :=
  open Classical in if h : ∃ items, Represents q items then h.choose else []

theorem contents_eq {q : QueueT} {items : List Packet} (h : Represents q items) :
    contents q = items := by
  have hex : ∃ items, Represents q items := ⟨items, h⟩
  rw [contents, dif_pos hex]
  exact hex.choose_spec.unique h

theorem sum_add_of_ne {ι : Type*} [Fintype ι] {f g : ι → Nat} {i : ι}
    (h : ∀ j, j ≠ i → g j = f j) : ∑ j, g j + f i = ∑ j, f j + g i := by
  classical
  have hrest : ∑ j ∈ Finset.univ.erase i, g j = ∑ j ∈ Finset.univ.erase i, f j :=
    Finset.sum_congr rfl fun j hj => h j (Finset.ne_of_mem_erase hj)
  rw [← Finset.add_sum_erase _ g (Finset.mem_univ i), ← Finset.add_sum_erase _ f (Finset.mem_univ i),
    hrest]
  omega

section

variable {ν κ : Type*}

/-- Every queue is a bounded FIFO. -/
def Represented (s : State ν κ) : Prop := ∀ k, ∃ items, Represents (s.queue k) items

variable [Fintype ν] [Fintype κ]

/-- What a state is worth, when a packet in the queue `k` is worth `W k` and a thread at `pc`
is worth `φ n pc`. -/
noncomputable def worth (φ : ν → Pc κ → Nat) (W : κ → Nat) (s : State ν κ) : Nat :=
  ∑ k, (contents (s.queue k)).length * W k + ∑ n, φ n (s.node n).pc

variable {φ : ν → Pc κ → Nat} {W : κ → Nat} {T : Topology ν κ} {s s' : State ν κ}
  {w : Nat}

theorem worth_congr (hqueue : s'.queue = s.queue) (hnode : s'.node = s.node) :
    worth φ W s' = worth φ W s := by
  unfold worth
  rw [hqueue, hnode]

/-- One thread goes on. -/
theorem worth_move (s' : State ν κ) (n : ν) (hqueue : s'.queue = s.queue)
    (hother : ∀ m, m ≠ n → (s'.node m).pc = (s.node m).pc) :
    worth φ W s' + φ n (s.node n).pc = worth φ W s + φ n (s'.node n).pc := by
  have hsum := sum_add_of_ne (f := fun m => φ m (s.node m).pc) (g := fun m => φ m (s'.node m).pc)
    fun m hm => congrArg (φ m) (hother m hm)
  unfold worth
  rw [hqueue]
  omega

variable [DecidableEq κ]

theorem worth_setQueue (k : κ) (q : QueueT) :
    worth φ W (s.setQueue k q) + (contents (s.queue k)).length * W k =
      worth φ W s + (contents q).length * W k := by
  have hsum := sum_add_of_ne (i := k)
    (f := fun j => (contents (s.queue j)).length * W j)
    (g := fun j => (contents ((s.setQueue k q).queue j)).length * W j)
    fun j hj => by rw [queue_setQueue_of_ne hj]
  rw [queue_setQueue_self] at hsum
  unfold worth
  change _ + ∑ n, φ n (s.node n).pc + _ = _
  omega

/-- A signal wakes one thread at most. -/
theorem worth_signal (hwake : ∀ n, φ n .woken ≤ φ n .asleep + w) (k : κ) :
    worth φ W (s.signal T k) ≤ worth φ W s + w := by
  by_cases hex : ∃ n, T.input n = some k
  · obtain ⟨n, hn⟩ := hex
    have hother : ∀ m, m ≠ n → ((s.signal T k).node m).pc = (s.node m).pc := by
      intro m hm
      simp only [State.signal]
      split
      next h => exact absurd (T.input_injective h.1 hn) hm
      next => rfl
    have hmove := worth_move (φ := φ) (W := W) (s := s) (s.signal T k) n rfl hother
    have hself : φ n ((s.signal T k).node n).pc ≤ φ n (s.node n).pc + w := by
      simp only [State.signal]
      split
      next h =>
        have hpc : (s.node n).pc = .asleep := by
          cases hpc : (s.node n).pc with
          | asleep => rfl
          | _ =>
            have hno := h.2
            rw [hpc] at hno
            cases hno
        rw [hpc]
        exact hwake n
      next => exact Nat.le_add_right _ w
    omega
  · have hsame : (s.signal T k).node = s.node := by
      funext m
      simp only [State.signal]
      split
      next h => exact absurd ⟨m, h.1⟩ hex
      next => rfl
    unfold worth
    rw [hsame]
    exact Nat.le_add_right _ w

/-- A `push` adds one packet at most, and wakes one thread at most. -/
theorem worth_pushed (hwake : ∀ n, φ n .woken ≤ φ n .asleep + w) (hrep : Represented s) {k : κ}
    {buffer : Memory UInt8} {size : UInt16} {ret : Int} {q : QueueT}
    (call : push (s.queue k) buffer size = (ret, q)) :
    worth φ W (s.pushed T k ret q) ≤ worth φ W s + W k + w := by
  obtain ⟨items, hitems⟩ := hrep k
  have hset := worth_setQueue (φ := φ) (W := W) (s := s) k q
  rw [contents_eq hitems] at hset
  unfold State.pushed
  rcases hitems.push_stored call with ⟨hret, p, -, hstored⟩ | ⟨hret, rfl⟩
  · rw [if_pos hret]
    have hsignal := worth_signal (W := W) (T := T) (s := s.setQueue k q) hwake k
    rw [contents_eq hstored, List.length_append, List.length_singleton, Nat.add_mul] at hset
    omega
  · rw [if_neg hret]
    rw [contents_eq hitems] at hset
    omega

end

/-! ## The queues stay queues -/

section

variable {ν κ : Type*} {host : ByteOrder} {T : Topology ν κ} {process : ν → Process}
  {s s' : State ν κ}

/-- What a `pop` that returns takes, and what it leaves. -/
theorem Represented.pop {k : κ} {ret : Int} {buff buff' : Memory UInt8} {q : QueueT}
    (h : Represented s) (call : pop (s.queue k) buff = some (ret, buff', q)) :
    ∃ packet items, Represents (s.queue k) (packet :: items) ∧ Represents q items ∧
      ret = packet.bytes.length := by
  obtain ⟨items, hitems⟩ := h k
  cases items with
  | nil =>
    rw [hitems.pop_nil] at call
    cases call
  | cons packet items =>
    obtain ⟨b, q₁, hpop, -, hrest⟩ := hitems.pop_cons buff
    rw [hpop] at call
    cases call
    exact ⟨packet, items, hitems, hrest, rfl⟩

theorem represented_initial (h : Initial process s) : Represented s := by
  intro k
  obtain ⟨uninitialised, hq⟩ := h.2.2.1 k
  rw [hq]
  exact ⟨[], represents_init _⟩

variable [DecidableEq κ]

theorem Represented.setQueue {k : κ} {q : QueueT} {items : List Packet} (h : Represented s)
    (hq : Represents q items) : Represented (s.setQueue k q) := by
  intro k'
  by_cases hk : k' = k
  · subst hk
    rw [queue_setQueue_self]
    exact ⟨items, hq⟩
  · rw [queue_setQueue_of_ne hk]
    exact h k'

theorem Represented.pushed {k : κ} {buffer : Memory UInt8} {size : UInt16} {ret : Int} {q : QueueT}
    (h : Represented s) (call : push (s.queue k) buffer size = (ret, q)) :
    Represented (s.pushed T k ret q) := by
  have hset : Represented (s.setQueue k q) := by
    obtain ⟨items, hitems⟩ := h k
    rcases hitems.push_stored call with ⟨-, p, -, hstored⟩ | ⟨-, rfl⟩
    · exact h.setQueue hstored
    · exact h.setQueue hitems
  unfold State.pushed
  split
  · exact hset
  · exact hset

variable [DecidableEq ν]

theorem represented_step {e : Event ν κ} (h : Represented s) (hs : Step host T s e s') :
    Represented s' := by
  cases hs with
  | take rand pc input call =>
    obtain ⟨packet, items, -, hrest, -⟩ := h.pop call
    exact h.setQueue hrest
  | push pc call => exact Represented.pushed h call
  | dispatch pc process call => exact Represented.pushed h call
  | _ => exact h

end

/-! ## What a step can do -/

namespace Event

variable {ν κ : Type*}

/-- What the step puts into a queue, and the wake-up by its signal. -/
def adds (W : κ → Nat) (w : Nat) : Event ν κ → Nat
  | .push _ k _ => W k + w
  | .stopSignal _ => w
  | _ => 0

/-- What the step takes out of a queue. -/
def removes (W : κ → Nat) : Event ν κ → Nat
  | .take _ k _ => W k
  | _ => 0

/-- A step of `pipeline_stop`. -/
def isStop : Event ν κ → Bool
  | .stopFlag => true
  | .stopSignal _ => true
  | .stopJoin => true
  | .joined _ => true
  | _ => false

/-- What `pipeline_stop` has done in the step: a signal counts twice. -/
def stopCost : Event ν κ → Nat
  | .stopFlag => 1
  | .stopSignal _ => 2
  | .stopJoin => 1
  | .joined _ => 1
  | _ => 0

end Event

/-- What `pipeline_stop` has still to do. -/
def Stop.left {ν κ : Type*} (T : Topology ν κ) : Stop ν κ → Nat
  | .running => 2 * T.queues.length + T.nodes.length + 2
  | .signalling ks => 2 * ks.length + T.nodes.length + 1
  | .joining ns => ns.length

/-- Where the step takes the thread of a node from, and to; `exit` is the flag before it. -/
inductive Moves {ν κ : Type*} (T : Topology ν κ) (exit : Bool) : Event ν κ → ν → Pc κ → Pc κ → Prop
  | enter {n : ν} (run : exit = false) : Moves T exit (.enter n) n .test .call
  | exit {n : ν} : Moves T exit (.exit n) n .test .left
  | recv {n : ν} {frame : List UInt8} (e : Effect) :
      Moves T exit (.recv n frame) n .call (.after (T.outputs n) e)
  | recvFailed {n : ν} (e : Effect) : Moves T exit (.recvFailed n) n .call (.after (T.outputs n) e)
  | take {n : ν} {k : κ} {pc : Pc κ} (e : Effect) (input : T.input n = some k)
      (pc_pop : pc = .call ∨ pc = .woken) :
      Moves T exit (.take n k e) n pc (.after (T.outputs n) e)
  | wait {n : ν} {k : κ} {pc : Pc κ} (pc_pop : pc = .call ∨ pc = .woken) :
      Moves T exit (.wait n k) n pc .asleep
  | spuriousWakeup {n : ν} : Moves T exit (.spuriousWakeup n) n .asleep .woken
  | push {n : ν} {k : κ} {ks : List κ} {buffer : Memory UInt8} {size : UInt16} {stored : Bool} :
      Moves T exit (.push n k stored) n (.send (k :: ks) buffer size) (.sending ks buffer size)
  | dispatch {n : ν} {k : κ} {buffer : Memory UInt8} {size : UInt16} {stored : Bool} :
      Moves T exit (.push n k stored) n (.dispatch k buffer size) .test
  | sendto {n : ν} {buffer : Memory UInt8} {len : Nat} {frame : List UInt8} {sent : Bool} {pc : Pc κ}
      (next : pc = .test ∨ pc = .left) : Moves T exit (.sendto n frame sent) n (.sendto buffer len) pc

section

variable {ν κ : Type*} [DecidableEq ν] [DecidableEq κ] {host : ByteOrder} {T : Topology ν κ}
  {s s' : State ν κ} {e : Event ν κ}

theorem stop_step (hs : Step host T s e s') :
    s'.stop.left T + e.stopCost = s.stop.left T := by
  cases hs with
  | push => exact congrArg (Stop.left T) stop_pushed
  | dispatch => exact congrArg (Stop.left T) stop_pushed
  | stopFlag stop => rw [stop]; rfl
  | @stopSignal k ks stop =>
    rw [stop]
    show 2 * ks.length + T.nodes.length + 1 + 2 = 2 * (ks.length + 1) + T.nodes.length + 1
    omega
  | stopJoin stop =>
    rw [stop]
    show T.nodes.length + 1 = 2 * 0 + T.nodes.length + 1
    omega
  | joined stop => rw [stop]; rfl
  | _ => rfl

variable [Fintype ν] [Fintype κ] {φ : ν → Pc κ → Nat} {W : κ → Nat} {w : Nat}

/-- A step of a thread takes it to another place, and a packet to or from a queue. -/
theorem worth_step (hwake : ∀ n, φ n .woken ≤ φ n .asleep + w) (hrep : Represented s)
    (hs : Step host T s e s') :
    (∃ n pc pc', Moves T s.shouldExit e n pc pc' ∧
        worth φ W s' + φ n pc + e.removes W ≤ worth φ W s + φ n pc' + e.adds W w) ∨
      (e.isStop = true ∧ worth φ W s' ≤ worth φ W s + e.adds W w) := by
  -- a thread that goes on without touching a queue
  have hset : ∀ (s : State ν κ) (n : ν) (st : NodeState κ),
      worth φ W (s.setNode n st) + φ n (s.node n).pc = worth φ W s + φ n st.pc := by
    intro s n st
    have hmove := worth_move (φ := φ) (W := W) (s := s) (s.setNode n st) n rfl
      fun m hm => congrArg NodeState.pc (node_setNode_of_ne hm)
    rwa [node_setNode_self] at hmove
  have hfinish : ∀ (s : State ν κ) (n : ν) (o : Outcome), worth φ W (s.finish T n o) +
      φ n (s.node n).pc = worth φ W s + φ n (.after (T.outputs n) o.effect) := by
    intro s n o
    have hmove := worth_move (φ := φ) (W := W) (s := s) (s.finish T n o) n rfl
      fun m hm => congrArg NodeState.pc (node_finish_of_ne hm)
    rwa [pc_finish_self] at hmove
  have hpush : ∀ (n : ν) (st : NodeState κ) {k : κ} {buffer : Memory UInt8} {size : UInt16} {ret : Int}
      {q : QueueT}, push (s.queue k) buffer size = (ret, q) →
      worth φ W ((s.setNode n st).pushed T k ret q) + φ n (s.node n).pc ≤
        worth φ W s + φ n st.pc + (W k + w) := by
    intro n st k buffer size ret q call
    have hnode := hset s n st
    have hpushed := worth_pushed (T := T) (W := W) (s := s.setNode n st) hwake hrep call
    omega
  cases hs with
  | @enter n pc run checks =>
    refine .inl ⟨n, _, _, .enter run, ?_⟩
    have h := hset s n { s.node n with pc := .call }
    rw [pc] at h
    exact h.le
  | @exit n pc stop =>
    refine .inl ⟨n, _, _, .exit, ?_⟩
    have h := hset s n { s.node n with pc := .left }
    rw [pc] at h
    exact h.le
  | @recv n frame pc sniffer len =>
    have h := hfinish s n (s.body host T n 0
      ((s.node n).buffer.memcpy 0 (Memory.ofList frame 0) frame.length) frame.length)
    rw [pc] at h
    exact .inl ⟨n, .call, _, .recv _, h.le⟩
  | @recvFailed n pc sniffer =>
    have h := hfinish s n (s.body host T n 0 (s.node n).buffer (-1))
    rw [pc] at h
    exact .inl ⟨n, .call, _, .recvFailed _, h.le⟩
  | @take n k ret buffer q rand pc input call =>
    obtain ⟨packet, items, hold, hrest, -⟩ := hrep.pop call
    have hqueue := worth_setQueue (φ := φ) (W := W) (s := s) k q
    have h := hfinish (s.setQueue k q) n (s.body host T n rand buffer ret)
    rw [contents_eq hold, contents_eq hrest, List.length_cons, Nat.add_mul] at hqueue
    change _ + φ n (s.node n).pc = _ at h
    refine .inl ⟨n, (s.node n).pc, _, .take _ input pc.1, ?_⟩
    show _ + W k ≤ _ + 0
    omega
  | @wait n k pc input call =>
    refine .inl ⟨n, (s.node n).pc, _, .wait pc.1, ?_⟩
    exact (hset s n { s.node n with pc := .asleep }).le
  | @spuriousWakeup n pc =>
    refine .inl ⟨n, _, _, .spuriousWakeup, ?_⟩
    have h := hset s n { s.node n with pc := .woken }
    rw [pc] at h
    exact h.le
  | @push n k ks buffer size ret q pc call =>
    refine .inl ⟨n, .send (k :: ks) buffer size, _, .push, ?_⟩
    have h := hpush n { s.node n with pc := .sending ks buffer size } call
    rw [pc] at h
    exact h
  | @dispatch n k buffer size ret q ctx pc process call =>
    refine .inl ⟨n, .dispatch k buffer size, _, .dispatch, ?_⟩
    have h := hpush n ⟨.test, (s.node n).buffer,
      .dispatcher (dispatcherPushed ctx ret size.toNat)⟩ call
    rw [pc] at h
    exact h
  | @sendto n buffer len errCounter sent pc process =>
    refine .inl ⟨n, .sendto buffer len, .after (T.outputs n) (senderSent errCounter sent).2,
      .sendto ?_, ?_⟩
    · unfold senderSent
      split
      · exact .inl rfl
      · split
        · exact .inr rfl
        · exact .inl rfl
    · have h := hfinish s n ⟨.sender (senderSent errCounter sent).1, (s.node n).buffer,
        (senderSent errCounter sent).2⟩
      rw [pc] at h
      exact h.le
  | stopFlag => exact .inr ⟨rfl, (worth_congr rfl rfl).le⟩
  | @stopSignal k ks stop =>
    have h := worth_signal (W := W) (T := T) (s := s) hwake k
    exact .inr ⟨rfl, (worth_congr rfl rfl).trans_le h⟩
  | stopJoin => exact .inr ⟨rfl, (worth_congr rfl rfl).le⟩
  | joined => exact .inr ⟨rfl, (worth_congr rfl rfl).le⟩

end

end VlanTagger.Pipeline
