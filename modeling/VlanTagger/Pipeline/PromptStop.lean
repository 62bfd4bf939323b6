import Mathlib.Algebra.Order.BigOperators.Group.Finset
import VlanTagger.Pipeline.Draining

/-!
# A pipeline that is told to stop

Once `should_exit` is set no thread enters its loop again, so that each thread takes one
packet more at most and passes it on, whatever the graph is and whatever the queues hold.
The steps of all threads and of `pipeline_stop` are then bounded beforehand, but for those
that a spurious wake-up causes; and when no thread can go on, each one has left its loop,
sleeps on an empty queue or sits in `recvfrom`.
-/
namespace VlanTagger.Pipeline

open Lib Nodes Queue

/-- The steps from this place to the end of the thread, with the wake-ups that its pushes
cause, for a node with `b` outputs. -/
def Pc.stepsToExit {κ : Type*} (b : Nat) : Pc κ → Nat
  | .test => 1
  | .call => 2 * b + 3
  | .asleep => 2 * b + 2
  | .woken => 2 * b + 3
  | .send ks _ _ => 2 * ks.length + 1
  | .dispatch _ _ _ => 3
  | .sendto _ _ => 2
  | .left => 0

/-- The thread is about to get a packet. -/
def Pc.awaits {κ : Type*} : Pc κ → Nat
  | .call => 1
  | .asleep => 1
  | .woken => 1
  | _ => 0

namespace Event

variable {ν κ : Type*}

def isSpurious : Event ν κ → Bool
  | .spuriousWakeup _ => true
  | _ => false

/-- The step gets the node a packet, from its queue or from `recvfrom`. -/
def gets [DecidableEq ν] (n : ν) : Event ν κ → Bool
  | .recv m _ => decide (m = n)
  | .take m _ _ => decide (m = n)
  | _ => false

end Event

section

variable {κ : Type*}

theorem stepsToExit_sending (b : Nat) (ks : List κ) (buffer : Memory UInt8) (size : UInt16) :
    (Pc.sending ks buffer size).stepsToExit b = 2 * ks.length + 1 := by
  cases ks <;> rfl

theorem stepsToExit_after (outputs : List κ) (e : Effect) :
    (Pc.after outputs e).stepsToExit outputs.length ≤ 2 * outputs.length + 2 := by
  cases e with
  | sendToOutputs buffer size =>
    rw [Pc.after, stepsToExit_sending]
    omega
  | pushTo i buffer size =>
    rw [Pc.after]
    cases hi : outputs[i]? with
    | none =>
      show 1 ≤ _
      omega
    | some k =>
      have hpos := List.length_pos_of_mem (List.mem_of_getElem? hi)
      show 3 ≤ _
      omega
  | next =>
    show 1 ≤ _
    omega
  | leave => exact Nat.zero_le _
  | giveUp => exact Nat.zero_le _
  | sendto buffer len => exact Nat.le_add_left 2 _

theorem awaits_after (outputs : List κ) (e : Effect) : (Pc.after outputs e).awaits = 0 := by
  cases e with
  | sendToOutputs buffer size => cases outputs <;> rfl
  | pushTo i buffer size =>
    rw [Pc.after]
    cases outputs[i]? <;> rfl
  | _ => rfl

theorem awaits_sending (ks : List κ) (buffer : Memory UInt8) (size : UInt16) :
    (Pc.sending ks buffer size).awaits = 0 := by
  cases ks <;> rfl

end

/-! ## Every step of a thread is paid for -/

section

variable {ν κ : Type*} {T : Topology ν κ} {e : Event ν κ} {n : ν} {pc pc' : Pc κ}

/-- What a step costs when it is not a spurious wake-up, and what a spurious wake-up adds. -/
theorem exit_moves (h : Moves T true e n pc pc') :
    pc'.stepsToExit (T.outputs n).length + e.adds (fun _ => 0) 1 + (if !e.isSpurious then 1 else 0) ≤
      pc.stepsToExit (T.outputs n).length + (if e.isSpurious then 1 else 0) := by
  have hpop : pc = .call ∨ pc = .woken →
      pc.stepsToExit (T.outputs n).length = 2 * (T.outputs n).length + 3 := by
    intro h
    rcases h with rfl | rfl <;> rfl
  cases h with
  | enter run => cases run
  | exit => exact Nat.le_refl 1
  | recv effect =>
    have hafter := stepsToExit_after (T.outputs n) effect
    show _ + 0 + 1 ≤ 2 * (T.outputs n).length + 3 + 0
    omega
  | recvFailed effect =>
    have hafter := stepsToExit_after (T.outputs n) effect
    show _ + 0 + 1 ≤ 2 * (T.outputs n).length + 3 + 0
    omega
  | take effect input pc_pop =>
    have hafter := stepsToExit_after (T.outputs n) effect
    rw [hpop pc_pop]
    show _ + 0 + 1 ≤ _ + 0
    omega
  | wait pc_pop =>
    rw [hpop pc_pop]
    exact Nat.le_refl _
  | spuriousWakeup => exact Nat.le_refl _
  | @push _ k ks =>
    rw [stepsToExit_sending]
    show _ + (0 + 1) + 1 ≤ 2 * (ks.length + 1) + 1 + 0
    omega
  | dispatch => exact Nat.le_refl 3
  | sendto next =>
    rcases next with rfl | rfl
    · exact Nat.le_refl 2
    · exact Nat.le_succ 1

theorem gets_of_ne [DecidableEq ν] {exit : Bool} (h : Moves T exit e n pc pc') {m : ν} (hn : n ≠ m) :
    e.gets m = false := by
  cases h with
  | recv effect => exact decide_eq_false hn
  | take effect input pc_pop => exact decide_eq_false hn
  | _ => rfl

/-- With the flag set, a thread that gets a packet does not come back to get another. -/
theorem awaits_moves [DecidableEq ν] (h : Moves T true e n pc pc') (m : ν) :
    (if n = m then pc'.awaits else 0) + (if e.gets m then 1 else 0) ≤
      if n = m then pc.awaits else 0 := by
  by_cases hn : n = m
  · subst hn
    rw [if_pos rfl, if_pos rfl]
    cases h with
    | enter run => cases run
    | recv effect =>
      rw [awaits_after, Event.gets, decide_eq_true rfl]
      exact Nat.le_refl 1
    | recvFailed effect =>
      rw [awaits_after]
      exact Nat.zero_le 1
    | take effect input pc_pop =>
      rw [awaits_after, Event.gets, decide_eq_true rfl]
      rcases pc_pop with rfl | rfl <;> exact Nat.le_refl 1
    | wait pc_pop => rcases pc_pop with rfl | rfl <;> exact Nat.le_refl 1
    | push =>
      rw [awaits_sending]
      exact Nat.zero_le _
    | sendto next => rcases next with rfl | rfl <;> exact Nat.le_refl 0
    | _ => exact Nat.le_refl _
  · rw [if_neg hn, if_neg hn, gets_of_ne h hn]
    exact Nat.le_refl 0

/-- A step of `pipeline_stop` pays for the thread that its signal wakes. -/
theorem stopCost_covers (h : e.isStop = true) :
    e.adds (fun _ => 0) 1 + (if !e.isSpurious then 1 else 0) ≤ e.stopCost := by
  cases e with
  | stopFlag => exact Nat.le_refl 1
  | stopSignal k => exact Nat.le_refl 2
  | stopJoin => exact Nat.le_refl 1
  | joined n => exact Nat.le_refl 1
  | _ => cases h

theorem gets_of_isStop [DecidableEq ν] (h : e.isStop = true) (m : ν) : e.gets m = false := by
  cases e with
  | recv n frame => cases h
  | take n k effect => cases h
  | _ => rfl

end

/-! ## Paths of a pipeline that is told to stop -/

section

variable {ν κ : Type*} [DecidableEq ν] [DecidableEq κ] {host : ByteOrder} {T : Topology ν κ}
  {process : ν → Process} {s s' t : State ν κ} {e : Event ν κ} {tr : List (Event ν κ)}

/-- What every state of such a path keeps. -/
def Stopping (T : Topology ν κ) (s : State ν κ) : Prop :=
  Represented s ∧ (∀ n, Placed T s n) ∧ s.shouldExit = true

theorem stopping_step (h : Stopping T s) (hs : Step host T s e s') : Stopping T s' :=
  ⟨represented_step h.1 hs, placed_step h.1 h.2.1 hs, exit_step h.2.2 hs⟩

theorem stop_left_reachable (h : (runtime host T process).Reachable s) :
    s.stop.left T ≤ 2 * T.queues.length + T.nodes.length + 2 := by
  refine System.Reachable.invariant
    (I := fun s => s.stop.left T ≤ 2 * T.queues.length + T.nodes.length + 2) ?_ ?_ h
  · intro s hs
    rw [hs.2.1]
    exact Nat.le_refl _
  · intro s e s' hi hs
    have hleft := stop_step hs
    omega

/-- `pipeline_stop`, when nothing can go on, waits for a thread or has returned. -/
theorem joining_at_rest (hrest : AtRest host T process t) (hstop : t.stop ≠ .running) :
    ∃ ns, t.stop = .joining ns ∧ ∀ n, ns.head? = some n → (t.node n).pc ≠ .left := by
  cases hs : t.stop with
  | running => exact absurd hs hstop
  | signalling ks =>
    cases ks with
    | nil => exact (hrest.not_inner (.stopJoin hs) rfl).elim
    | cons k ks => exact (hrest.not_inner (.stopSignal hs) rfl).elim
  | joining ns =>
    refine ⟨ns, rfl, fun n hn hleft => ?_⟩
    cases ns with
    | nil => cases hn
    | cons n' ns =>
      cases hn
      exact hrest.not_inner (.joined hs hleft) rfl

end

section

variable {ν κ : Type*} {T : Topology ν κ} {s : State ν κ} {n : ν}

theorem stepsToExit_le (h : Placed T s n) :
    (s.node n).pc.stepsToExit (T.outputs n).length ≤ 2 * (T.outputs n).length + 3 := by
  unfold Placed at h
  cases hpc : (s.node n).pc with
  | send ks buffer size =>
    rw [hpc] at h
    have hle := h.2.length_le
    show 2 * ks.length + 1 ≤ _
    omega
  | call => exact Nat.le_refl _
  | woken => exact Nat.le_refl _
  | asleep => exact Nat.le_succ _
  | dispatch k buffer size => exact Nat.le_add_left 3 _
  | sendto buffer len =>
    show 2 ≤ _
    omega
  | test =>
    show 1 ≤ _
    omega
  | left => exact Nat.zero_le _

theorem awaits_le (pc : Pc κ) : pc.awaits ≤ 1 := by
  cases pc <;> first | exact Nat.le_refl 1 | exact Nat.zero_le 1

variable [Fintype ν] [Fintype κ]

theorem worth_zero (φ : ν → Pc κ → Nat) (s : State ν κ) :
    worth φ (fun _ => 0) s = ∑ n, φ n (s.node n).pc := by
  unfold worth
  simp only [Nat.mul_zero, Finset.sum_const_zero, Nat.zero_add]

variable [DecidableEq ν] [DecidableEq κ] {host : ByteOrder} {process : ν → Process}
  {t : State ν κ} {tr : List (Event ν κ)}

/-- The steps of a pipeline that is told to stop are bounded beforehand, but for one step more
for each spurious wake-up. -/
theorem exit_steps (h : Stopping T s) (path : (runtime host T process).Path s tr t) :
    tr.countP (fun e => !e.isSpurious) ≤
      ∑ n, (2 * (T.outputs n).length + 3) + s.stop.left T + tr.countP Event.isSpurious := by
  let μ : State ν κ → Nat := fun s =>
    worth (fun n => Pc.stepsToExit (T.outputs n).length) (fun _ => 0) s + s.stop.left T
  have hpaid : μ t + tr.countP (fun e => !e.isSpurious) ≤ μ s + tr.countP Event.isSpurious := by
    refine path.countP_le_countP (I := Stopping T) (fun s e s' hi hs => stopping_step hi hs)
      (fun s e s' hi hs => ?_) h
    have hleft := stop_step hs
    show worth _ _ s' + s'.stop.left T + _ ≤ worth _ _ s + s.stop.left T + _
    rcases worth_step (φ := fun n => Pc.stepsToExit (T.outputs n).length) (W := fun _ => 0) (w := 1)
      (fun _ => Nat.le_refl _) hi.1 hs with ⟨n, pc, pc', hmoves, hworth⟩ | ⟨hstop, hworth⟩
    · rw [hi.2.2] at hmoves
      have hpays := exit_moves hmoves
      omega
    · have hpays := stopCost_covers hstop
      omega
  have hstart : worth (fun n => Pc.stepsToExit (T.outputs n).length) (fun _ => 0) s ≤
      ∑ n, (2 * (T.outputs n).length + 3) := by
    rw [worth_zero]
    exact Finset.sum_le_sum fun n _ => stepsToExit_le (h.2.1 n)
  change _ ≤ worth _ _ s + s.stop.left T + _ at hpaid
  omega

/-- A node of a pipeline that is told to stop gets one packet more at most. -/
theorem gets_le_one (h : Stopping T s) (path : (runtime host T process).Path s tr t) (m : ν) :
    tr.countP (Event.gets m) ≤ 1 := by
  let μ : State ν κ → Nat := worth (fun n pc => if n = m then Pc.awaits pc else 0) fun _ => 0
  have hpaid : μ t + tr.countP (Event.gets m) ≤ μ s + tr.countP fun _ => false := by
    refine path.countP_le_countP (I := Stopping T) (fun s e s' hi hs => stopping_step hi hs)
      (fun s e s' hi hs => ?_) h
    show worth _ _ s' + _ ≤ worth _ _ s + _
    rcases worth_step (φ := fun n pc => if n = m then Pc.awaits pc else 0) (W := fun _ => 0) (w := 0)
      (fun _ => by split <;> exact Nat.le_refl _) hi.1 hs with ⟨n, pc, pc', hmoves, hworth⟩ | ⟨hstop, hworth⟩
    · rw [hi.2.2] at hmoves
      have hpays := awaits_moves hmoves m
      have hadds : e.adds (fun _ => 0) 0 = 0 := by cases e <;> rfl
      rw [if_neg Bool.false_ne_true]
      omega
    · have hadds : e.adds (fun _ => 0) 0 = 0 := by cases e <;> rfl
      rw [gets_of_isStop hstop m, if_neg Bool.false_ne_true]
      omega
  have hstart : μ s ≤ 1 := by
    show worth _ _ s ≤ 1
    rw [worth_zero, Finset.sum_ite_eq' Finset.univ m, if_pos (Finset.mem_univ m)]
    exact awaits_le _
  have hnone : tr.countP (fun _ => false) = 0 := List.countP_eq_zero.mpr fun _ _ => Bool.false_ne_true
  omega

/-- A pipeline that is told to stop, of any shape and with any packets in its queues: the
threads and `pipeline_stop` take no more steps than a bound that is known beforehand, and one
more for each spurious wake-up; each node gets one packet more at most; and when nothing can
go on, every thread has left its loop, sleeps on an empty queue or sits in `recvfrom`, and
`pipeline_stop` has returned or waits for a thread that has not left. -/
theorem pipeline_stops (h : (runtime host T process).Reachable s) (hexit : s.shouldExit = true)
    (path : (runtime host T process).Path s tr t) :
    tr.countP (fun e => !e.isSpurious) ≤ ∑ n, (2 * (T.outputs n).length + 3) +
        (2 * T.queues.length + T.nodes.length + 2) + tr.countP Event.isSpurious ∧
      (∀ n, tr.countP (Event.gets n) ≤ 1) ∧
      (AtRest host T process t →
        (∀ n, (t.node n).pc = .left ∨
          ((t.node n).pc = .asleep ∧ ∃ k, T.input n = some k ∧ isEmpty (t.queue k) = true) ∨
          ((t.node n).process.role = .sniffer ∧ (t.node n).pc = .call)) ∧
        (t.stop ≠ .running →
          ∃ ns, t.stop = .joining ns ∧ ∀ n, ns.head? = some n → (t.node n).pc ≠ .left)) := by
  obtain ⟨hrep, hplaced⟩ := placed_reachable h
  have hstopping : Stopping T s := ⟨hrep, hplaced, hexit⟩
  refine ⟨?_, gets_le_one hstopping path, fun hrest => ⟨fun n => ?_, joining_at_rest hrest⟩⟩
  · have hsteps := exit_steps hstopping path
    have hleft := stop_left_reachable h
    omega
  · have hend : Stopping T t :=
      path.invariant (fun s e s' hi hs => stopping_step hi hs) hstopping
    rcases placed_at_rest hend.2.1 hrest n with ⟨-, hasleep, hempty⟩ | hcall | ⟨hleft, -⟩
    · exact .inr (.inl ⟨hasleep, hempty⟩)
    · exact .inr (.inr hcall)
    · exact .inl hleft

/-- Told to stop, the network of the program takes 48 steps at most, and those of spurious
wake-ups; here, while its sniffer captures one last frame. -/
theorem pipeline_stops_one :
    ∃ s tr t, (vlanTaggerRuntime .little oneRange).Reachable s ∧
      (vlanTaggerRuntime .little oneRange).Path s tr t ∧ tr.countP (Event.gets .sniffer) = 1 ∧
      tr.countP (fun e => !e.isSpurious) ≤ 48 + tr.countP Event.isSpurious := by
  have h0 := System.Reachable.start (vlanTaggerStart_initial .little oneRange)
  have h1 := h0.step (.enter (n := .sniffer) rfl rfl rfl)
  have h2 := h1.step (.stopFlag rfl)
  have p1 : (vlanTaggerRuntime .little oneRange).Path _ _ _ := .single (@Step.recv _ _ _ _ .little
    vlanTagger { (vlanTaggerStart oneRange).setPc .sniffer .call with
      shouldExit := true, stop := .signalling vlanTagger.queues } .sniffer [1, 2, 3] rfl rfl (by decide))
  have p2 := p1.snoc (@Step.push _ _ _ _ _ _ _ .sniffer .dispatcher _ _ _ _ _ rfl rfl)
  exact ⟨_, _, _, h2, p2, rfl, (pipeline_stops h2 rfl p2).1⟩

end

end VlanTagger.Pipeline
