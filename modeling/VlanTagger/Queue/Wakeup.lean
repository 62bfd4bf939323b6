import VlanTagger.Lib.Condition
import VlanTagger.Queue.Fifo

/-!
# No wake-up of the queue is lost

The queue together with its condition variable, used by any threads. Each
critical section under `cond_mutex` is one step: a thread that enters `pop`, or
that was woken inside it, re-tests `is_empty` under the mutex and either takes
the front packet or goes to sleep, which releases the mutex in the same step.
Signals are sent by a successful `push`, inside its section, and by
`send_signal_queue`, with no lock held; sleepers may wake spuriously.
-/
namespace VlanTagger.Queue

open Lib

section

variable {Tid : Type*} [DecidableEq Tid]

/-- The queue and the threads inside its `pthread_cond_wait`. -/
structure Shared (Tid : Type*) [DecidableEq Tid] where
  q : QueueT
  condition : Condition Tid

inductive Action (Tid : Type*)
  | push (t : Tid) (buf : Memory UInt8) (size : UInt16)
  | pop (t : Tid) (buff : Memory UInt8)
  | removeFront (t : Tid)
  | sendSignalQueue (t : Tid)
  | spuriousWakeup (t : Tid)

/-- The steps of the protocol; only the threads in `consumer` call `pop`. -/
inductive SharedStep (consumer : Tid → Prop) : Shared Tid → Action Tid → Shared Tid → Prop
  /-- `push` returned `size`: it stored the packet and signalled. -/
  | push_stored {q q' : QueueT} {c c' : Condition Tid} {t : Tid} {buf : Memory UInt8}
      {size : UInt16} {ret : Int} (run : c.Running t) (call : push q buf size = (ret, q'))
      (stored : 0 < ret) (signal : c.Signal c') :
      SharedStep consumer ⟨q, c⟩ (.push t buf size) ⟨q', c'⟩
  /-- `push` returned 0 or -1, before or inside its section, without a signal. -/
  | push_refused {q q' : QueueT} {c : Condition Tid} {t : Tid} {buf : Memory UInt8}
      {size : UInt16} {ret : Int} (run : c.Running t) (call : push q buf size = (ret, q'))
      (refused : ret ≤ 0) : SharedStep consumer ⟨q, c⟩ (.push t buf size) ⟨q', c⟩
  /-- `is_empty` is false: the thread takes the front packet and unlocks. -/
  | pop_taken {q q' : QueueT} {c : Condition Tid} {t : Tid} {buff buff' : Memory UInt8}
      {ret : Int} (who : consumer t) (awake : t ∉ c.asleep)
      (call : pop q buff = some (ret, buff', q')) :
      SharedStep consumer ⟨q, c⟩ (.pop t buff) ⟨q', c.resume t⟩
  /-- `is_empty` is true: the thread enters, or re-enters, `pthread_cond_wait`. -/
  | pop_wait {q : QueueT} {c : Condition Tid} {t : Tid} {buff : Memory UInt8}
      (who : consumer t) (awake : t ∉ c.asleep) (call : pop q buff = none) :
      SharedStep consumer ⟨q, c⟩ (.pop t buff) ⟨q, c.sleep t⟩
  | remove_front {q : QueueT} {c : Condition Tid} {t : Tid} (run : c.Running t) :
      SharedStep consumer ⟨q, c⟩ (.removeFront t) ⟨removeFront q, c⟩
  | send_signal_queue {q : QueueT} {c c' : Condition Tid} {t : Tid} (run : c.Running t)
      (signal : c.Signal c') : SharedStep consumer ⟨q, c⟩ (.sendSignalQueue t) ⟨q, c'⟩
  | spurious_wakeup {q : QueueT} {c : Condition Tid} {t : Tid} :
      SharedStep consumer ⟨q, c⟩ (.spuriousWakeup t) ⟨q, c.wake {t}⟩

def sharedSystem (consumer : Tid → Prop) : System (Shared Tid) (Action Tid) where
  init := fun s => (∃ uninitialised, s.q = init uninitialised) ∧ s.condition = Condition.idle
  step := SharedStep consumer

/-- The invariant: the list behind the queue is covered by the woken threads, and
only consumers are inside the wait. -/
structure WakeupInvariant (consumer : Tid → Prop) (s : Shared Tid) (items : List Packet) : Prop where
  represents : Represents s.q items
  covered : s.condition.Covered items.length
  waiters : ∀ t, t ∈ s.condition.asleep ∨ t ∈ s.condition.woken → consumer t

theorem wakeupInvariant_init {consumer : Tid → Prop} {s : Shared Tid}
    (h : (sharedSystem consumer).init s) : WakeupInvariant consumer s [] := by
  obtain ⟨⟨q₀, hq⟩, hc⟩ := h
  constructor
  · rw [hq]; exact represents_init q₀
  · exact Condition.covered_zero s.condition
  · intro t ht
    rw [hc] at ht
    simp [Condition.idle] at ht

private theorem waiters_wake {consumer : Tid → Prop} {c : Condition Tid} {ws : Finset Tid}
    (h : ∀ t, t ∈ c.asleep ∨ t ∈ c.woken → consumer t) :
    ∀ t, t ∈ (c.wake ws).asleep ∨ t ∈ (c.wake ws).woken → consumer t := by
  intro t ht
  apply h
  simp only [Condition.wake, Finset.mem_sdiff, Finset.mem_union, Finset.mem_inter] at ht
  tauto

/-- Every step of every thread preserves the invariant. -/
theorem wakeupInvariant_step {consumer : Tid → Prop} {s s' : Shared Tid} {a : Action Tid}
    {items : List Packet} (h : WakeupInvariant consumer s items)
    (hs : SharedStep consumer s a s') : ∃ items', WakeupInvariant consumer s' items' := by
  obtain ⟨hr, hcov, hwait⟩ := h
  cases hs with
  | @push_stored q q' c c' t buf size ret run call stored signal =>
    obtain ⟨items', hstep, hr', _⟩ := callStep_refines hr (c := .push buf size ret) call
    obtain ⟨ws, _, rfl⟩ := id signal
    refine ⟨items', hr', ?_, waiters_wake hwait⟩
    -- the stored packet is paid for by the signal of the same section
    exact (Condition.Covered.signal_succ hcov signal).mono hstep.length_push
  | @push_refused q q' c t buf size ret run call refused =>
    rcases push_cases call with ⟨hret, hz⟩ | ⟨-, rfl⟩
    · have hpos : size.toNat ≠ 0 := fun h => hz (UInt16.toNat.inj h)
      omega
    · exact ⟨items, hr, hcov, hwait⟩
  | @pop_taken q q' c t buff buff' ret who awake call =>
    obtain ⟨items', ⟨p, rfl, _⟩, hr', _⟩ := callStep_refines hr (c := .pop buff buff' ret) call
    refine ⟨items', hr', Condition.Covered.resume hcov t, fun u hu => hwait u ?_⟩
    rcases hu with ha | hw
    · exact .inl ha
    · exact .inr (Finset.mem_of_mem_erase hw)
  | @pop_wait q c t buff who awake call =>
    cases items with
    | cons p items =>
      obtain ⟨_, _, hp, _⟩ := hr.pop_cons buff
      change pop q buff = _ at hp
      rw [call] at hp
      cases hp
    | nil =>
      -- only an empty queue puts a thread to sleep
      refine ⟨[], hr, Condition.covered_zero _, fun u hu => ?_⟩
      simp only [Condition.sleep, Finset.mem_insert, Finset.mem_erase] at hu
      rcases hu with (rfl | ha) | ⟨_, hw⟩
      · exact who
      · exact hwait u (.inl ha)
      · exact hwait u (.inr hw)
  | @remove_front q c t run =>
    obtain ⟨items', hstep, hr', _⟩ := callStep_refines hr (c := .removeFront) rfl
    have hi : items' = items.tail := hstep
    subst hi
    refine ⟨_, hr', Condition.Covered.mono hcov ?_, hwait⟩
    rw [List.length_tail]
    omega
  | @send_signal_queue q c c' t run signal =>
    obtain ⟨ws, _, rfl⟩ := id signal
    exact ⟨items, hr, Condition.Covered.signal hcov signal, waiters_wake hwait⟩
  | @spurious_wakeup q c t =>
    exact ⟨items, hr, Condition.Covered.wake hcov {t}, waiters_wake hwait⟩

theorem wakeupInvariant_reachable {consumer : Tid → Prop} {s : Shared Tid}
    (h : (sharedSystem consumer).Reachable s) : ∃ items, WakeupInvariant consumer s items := by
  refine System.Reachable.invariant (I := fun s => ∃ items, WakeupInvariant consumer s items)
    ?_ ?_ h
  · exact fun s hs => ⟨[], wakeupInvariant_init hs⟩
  · rintro s a s' ⟨items, hi⟩ hs
    exact wakeupInvariant_step hi hs

/-- In every reachable state in which some thread sleeps, at least as many threads
have been woken and not yet re-acquired the mutex as there are packets in the
queue. So a packet never waits while every consumer is asleep. -/
theorem no_lost_wakeup {consumer : Tid → Prop} {s : Shared Tid}
    (h : (sharedSystem consumer).Reachable s) :
    ∃ items : List Packet, Represents s.q items ∧
      (s.condition.asleep.Nonempty → items.length ≤ s.condition.woken.card) ∧
      ((∃ t, consumer t) → (∀ t, consumer t → t ∈ s.condition.asleep) → items = []) := by
  obtain ⟨items, hr, hcov, hwait⟩ := wakeupInvariant_reachable h
  refine ⟨items, hr, hcov, ?_⟩
  rintro ⟨t, ht⟩ hall
  have hw : s.condition.woken = ∅ := by
    apply Finset.eq_empty_of_forall_notMem
    intro u hu
    have hu' := hall u (hwait u (.inr hu))
    exact Finset.disjoint_left.mp s.condition.disjoint hu' hu
  have hn := hcov ⟨t, hall t ht⟩
  rw [hw, Finset.card_empty, Nat.le_zero, List.length_eq_zero_iff] at hn
  exact hn

end

/-- A consumer falls asleep on the empty queue and a producer pushes a packet. -/
theorem no_lost_wakeup_push :
    ∃ s : Shared Bool, (sharedSystem (fun t => t = true)).Reachable s ∧
      ∃ items : List Packet, Represents s.q items ∧
        (s.condition.asleep.Nonempty → items.length ≤ s.condition.woken.card) := by
  have hstart : (sharedSystem (fun t => t = true)).Reachable
      (⟨init zeroed, Condition.idle⟩ : Shared Bool) := .start ⟨⟨zeroed, rfl⟩, rfl⟩
  have hwait : SharedStep (fun t => t = true) ⟨init zeroed, Condition.idle⟩
      (.pop true fun _ => 0) ⟨init zeroed, Condition.idle.sleep true⟩ :=
    .pop_wait rfl (by decide) rfl
  have hpush : SharedStep (fun t => t = true) ⟨init zeroed, Condition.idle.sleep true⟩
      (.push false (fun _ => 7) 2)
      ⟨(push (init zeroed) (fun _ => 7) 2).2, (Condition.idle.sleep true).wake {true}⟩ :=
    .push_stored ⟨by decide, by decide⟩ rfl (by decide) ⟨{true}, fun _ => by decide, rfl⟩
  have hreach := (hstart.step hwait).step hpush
  obtain ⟨items, hr, hle, -⟩ := no_lost_wakeup hreach
  exact ⟨_, hreach, items, hr, hle⟩

end VlanTagger.Queue
