import VlanTagger.Pipeline.Counters
import VlanTagger.Pipeline.Shutdown

/-!
# What sets `should_exit`

`pipeline_stop` sets the flag, and so does a sniffer or a sender that gives up after its
socket call has failed. The error counters are bounded by the failures in the run, so that
a pipeline whose sockets have failed three times each at most, and on which nobody has
called `pipeline_stop`, goes on.
-/
namespace VlanTagger.Pipeline

open Lib Nodes Queue

/-- `err_counter` of a sniffer or a sender. -/
def Process.errCounter : Process → Nat
  | .sniffer errCounter => errCounter.toNat
  | .sender errCounter => errCounter
  | _ => 0

section

variable {ν κ : Type*} [DecidableEq ν]

/-- The socket call of `n` has failed. -/
def Event.failsAt (n : ν) : Event ν κ → Bool
  | .recvFailed m => decide (m = n)
  | .sendto m _ sent => decide (m = n) && !sent
  | _ => false

/-- Where no `recvfrom` has failed, the failures are calls of `sendto`. -/
theorem countP_failsAt_le {tr : List (Event ν κ)} (n : ν) (h : ∀ m, .recvFailed m ∉ tr) :
    tr.countP (Event.failsAt n) ≤ (handedFrames tr).length := by
  rw [handedFrames, List.length_filterMap_eq_countP]
  refine List.countP_mono_left fun e he hfails => ?_
  cases e with
  | recvFailed m => exact absurd he (h m)
  | sendto m frame sent => rfl
  | _ => cases hfails

/-- A loop body changes no error counter but that of a sniffer. -/
theorem errCounter_body {p : Process} (hns : p.isSniffer = false) (host : ByteOrder)
    (outputCount rand : Nat) (shouldExit : Bool) (buffer : Memory UInt8) (ret : Int) :
    (p.body host outputCount rand shouldExit buffer ret).process.errCounter = p.errCounter := by
  cases p with
  | sniffer errCounter => cases hns
  | _ => rfl

/-- A sniffer that has received a frame starts to count again and does not give up. -/
theorem sniffer_received {p : Process} (hsniffer : p.isSniffer = true) (host : ByteOrder)
    (outputCount rand : Nat) (shouldExit : Bool) (buffer : Memory UInt8) (len : Nat) :
    (p.body host outputCount rand shouldExit buffer len).process.errCounter = 0 ∧
      Effect.stops (p.body host outputCount rand shouldExit buffer len).effect = false := by
  have hneg : ¬ (len : Int) < 0 := by omega
  cases p with
  | sniffer errCounter =>
    simp only [Process.body, snifferBody, hneg, if_false]
    exact ⟨rfl, rfl⟩
  | _ => cases hsniffer

/-- A failure adds one to the counter of a sniffer, or makes it give up if it has three. -/
theorem sniffer_failed {p : Process} (hsniffer : p.isSniffer = true) (host : ByteOrder)
    (outputCount rand : Nat) (shouldExit : Bool) (buffer : Memory UInt8) :
    (p.body host outputCount rand shouldExit buffer (-1)).process.errCounter ≤ p.errCounter + 1 ∧
      (p.errCounter < 3 →
        Effect.stops (p.body host outputCount rand shouldExit buffer (-1)).effect = false) := by
  have hneg : (-1 : Int) < 0 := by decide
  cases p with
  | sniffer errCounter =>
    simp only [Process.body, snifferBody, hneg, if_true]
    split
    next hmax =>
      refine ⟨Nat.le_succ _, fun hfew => ?_⟩
      exact absurd hfew (Nat.not_lt.mpr (UInt8.le_iff_toNat_le.mp hmax))
    next =>
      have hone : (1 : UInt8).toNat = 1 := rfl
      refine ⟨?_, fun _ => rfl⟩
      simp only [Process.errCounter, UInt8.toNat_add, hone]
      omega
  | _ => cases hsniffer

/-- What follows a `sendto`. -/
theorem sender_sent (errCounter : Nat) (sent : Bool) :
    (Process.sender (senderSent errCounter sent).1).errCounter ≤
        errCounter + (if !sent then 1 else 0) ∧
      (sent = true ∨ errCounter < 3 → Effect.stops (senderSent errCounter sent).2 = false) := by
  unfold senderSent
  cases sent with
  | true => exact ⟨Nat.zero_le _, fun _ => rfl⟩
  | false =>
    rw [if_neg Bool.false_ne_true]
    split
    next hmax =>
      refine ⟨Nat.le_add_right _ _, fun hfew => ?_⟩
      rcases hfew with hsent | hfew
      · cases hsent
      · omega
    next => exact ⟨Nat.le_refl _, fun _ => rfl⟩

variable {host : ByteOrder} {T : Topology ν κ} {process : ν → Process} {s s' : State ν κ}
  {tr : List (Event ν κ)} {e : Event ν κ}

/-- The counter of `n` behind the body of a thread. -/
theorem errCounter_finish {m : ν} {o : Outcome} (n : ν) {b : Nat}
    (h : m = n → o.process.errCounter ≤ (s.node n).process.errCounter + b) :
    ((s.finish T m o).node n).process.errCounter ≤ (s.node n).process.errCounter + b := by
  by_cases hm : n = m
  · subst hm
    rw [process_finish_self]
    exact h rfl
  · rw [node_finish_of_ne hm]
    exact Nat.le_add_right _ _

/-- Nobody has called `pipeline_stop`, and no socket has failed more than three times. -/
structure Undisturbed (tr : List (Event ν κ)) : Prop where
  stop : .stopFlag ∉ tr
  few : ∀ n, tr.countP (Event.failsAt n) ≤ 3

theorem Undisturbed.of_snoc (h : Undisturbed (tr ++ [e])) :
    Undisturbed tr ∧ e ≠ .stopFlag ∧
      ∀ n, e.failsAt n = true → tr.countP (Event.failsAt n) < 3 := by
  have hcount : ∀ n, tr.countP (Event.failsAt n) + (if e.failsAt n then 1 else 0) ≤ 3 := by
    intro n
    have hfew := h.few n
    rwa [List.countP_append, List.countP_singleton] at hfew
  refine ⟨⟨fun hmem => h.stop (List.mem_append_left _ hmem), fun n => ?_⟩, ?_, fun n hfails => ?_⟩
  · exact Nat.le_trans (Nat.le_add_right _ _) (hcount n)
  · rintro rfl
    exact h.stop (List.mem_append_right _ (List.mem_singleton_self _))
  · have hle := hcount n
    rw [hfails, if_pos rfl] at hle
    omega

variable [DecidableEq κ]

/-- The counters count no more than the failures. -/
theorem errCounter_step (hs : Step host T s e s') (n : ν) :
    (s'.node n).process.errCounter ≤
      (s.node n).process.errCounter + if e.failsAt n then 1 else 0 := by
  have hset : ∀ {m : ν} {st : NodeState κ}, st.process.errCounter ≤ (s.node m).process.errCounter →
      ((s.setNode m st).node n).process.errCounter ≤ (s.node n).process.errCounter := by
    intro m st hle
    by_cases hm : n = m
    · subst hm
      rwa [node_setNode_self]
    · rw [node_setNode_of_ne hm]
  cases hs with
  | enter => exact hset (Nat.le_refl _)
  | exit => exact hset (Nat.le_refl _)
  | recv pc sniffer len =>
    refine errCounter_finish n fun hm => ?_
    exact Nat.le_trans (Nat.le_of_eq (sniffer_received sniffer ..).1) (Nat.zero_le _)
  | recvFailed pc sniffer =>
    refine errCounter_finish n fun hm => ?_
    subst hm
    rw [Event.failsAt, decide_eq_true rfl, if_pos rfl]
    exact (sniffer_failed sniffer ..).1
  | take rand pc input call =>
    refine errCounter_finish (s := s.setQueue _ _) n fun hm => ?_
    subst hm
    exact Nat.le_of_eq (errCounter_body pc.2 ..)
  | wait => exact hset (Nat.le_refl _)
  | spuriousWakeup => exact hset (Nat.le_refl _)
  | push =>
    rw [process_pushed]
    exact hset (Nat.le_refl _)
  | dispatch =>
    rw [process_pushed]
    exact hset (Nat.zero_le _)
  | sendto sent pc process =>
    refine errCounter_finish n fun hm => ?_
    subst hm
    rw [Event.failsAt, decide_eq_true rfl, Bool.true_and, process]
    exact (sender_sent _ sent).1
  | stopSignal =>
    simp only [State.signal]
    split <;> exact Nat.le_refl _
  | _ => exact Nat.le_refl _

/-- Without `pipeline_stop`, and while no counter is at its limit, the threads go on. -/
theorem running_step (hgo : s.shouldExit = false) (hrun : s.stop = .running)
    (hfew : ∀ n, e.failsAt n = true → (s.node n).process.errCounter < 3) (hstop : e ≠ .stopFlag)
    (hs : Step host T s e s') : s'.shouldExit = false ∧ s'.stop = .running := by
  have hfinish : ∀ {n : ν} {o : Outcome}, Effect.stops o.effect = false →
      (s.finish T n o).shouldExit = false := by
    intro n o ho
    show (s.shouldExit || Effect.stops o.effect) = false
    rw [hgo, ho]
    rfl
  have hpushed : ∀ {n : ν} {st : NodeState κ} {k : κ} {ret : Int} {q : QueueT},
      ((s.setNode n st).pushed T k ret q).shouldExit = false ∧
        ((s.setNode n st).pushed T k ret q).stop = .running := by
    intro n st k ret q
    unfold State.pushed
    split <;> exact ⟨hgo, hrun⟩
  cases hs with
  | recv pc sniffer len => exact ⟨hfinish (sniffer_received sniffer ..).2, hrun⟩
  | @recvFailed n pc sniffer =>
    exact ⟨hfinish ((sniffer_failed sniffer ..).2 (hfew n (decide_eq_true rfl))), hrun⟩
  | @take n k ret buffer q rand pc input call => exact ⟨hfinish (n := n) (stops_body pc.2 ..), hrun⟩
  | push => exact hpushed
  | dispatch => exact hpushed
  | @sendto n buffer len errCounter sent pc process =>
    refine ⟨hfinish ((sender_sent errCounter sent).2 ?_), hrun⟩
    cases sent with
    | true => exact .inl rfl
    | false =>
      have hlimit := hfew n (by rw [Event.failsAt, decide_eq_true rfl]; rfl)
      rw [process] at hlimit
      exact .inr hlimit
  | stopFlag => exact absurd rfl hstop
  | stopSignal stop =>
    rw [hrun] at stop
    cases stop
  | stopJoin stop =>
    rw [hrun] at stop
    cases stop
  | joined stop =>
    rw [hrun] at stop
    cases stop
  | _ => exact ⟨hgo, hrun⟩

theorem errCounter_run (hzero : ∀ n, (process n).errCounter = 0)
    (h : (runtime host T process).Run tr s) (n : ν) :
    (s.node n).process.errCounter ≤ tr.countP (Event.failsAt n) := by
  refine h.invariant
    (I := fun tr s => (s.node n).process.errCounter ≤ tr.countP (Event.failsAt n)) ?_ ?_
  · rintro s ⟨-, -, -, hnode⟩
    obtain ⟨-, uninitialised, hp⟩ := hnode n
    have hstart : ((process n).started uninitialised).errCounter = (process n).errCounter := by
      cases process n <;> rfl
    rw [hp, hstart, hzero]
    exact Nat.zero_le _
  · intro tr s e s' _ hi hs
    have hstep := errCounter_step hs n
    rw [List.countP_append, List.countP_singleton]
    omega

/-- An undisturbed pipeline goes on. -/
theorem Undisturbed.goes_on (hzero : ∀ n, (process n).errCounter = 0)
    (h : (runtime host T process).Run tr s) (hquiet : Undisturbed tr) : s.shouldExit = false := by
  have hrun : Undisturbed tr → s.shouldExit = false ∧ s.stop = .running := by
    refine h.invariant
      (I := fun tr s => Undisturbed tr → s.shouldExit = false ∧ s.stop = .running) ?_ ?_
    · intro s hinit _
      exact ⟨hinit.1, hinit.2.1⟩
    · intro tr s e s' hrun hi hs hquiet
      obtain ⟨hbefore, hstop, hfew⟩ := hquiet.of_snoc
      obtain ⟨hgo, hrunning⟩ := hi hbefore
      exact running_step hgo hrunning
        (fun n hfails => Nat.lt_of_le_of_lt (errCounter_run hzero hrun n) (hfew n hfails)) hstop hs
  exact (hrun hquiet).1

end

theorem errCounter_process (ctx : TaggerContext) (n : Station) : (n.process ctx).errCounter = 0 := by
  cases n <;> rfl

end VlanTagger.Pipeline
