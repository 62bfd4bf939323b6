import VlanTagger.Pipeline.Graph
import VlanTagger.Queue.Fifo

/-!
# Stopping a pipeline

`pipeline_stop` sets the flag, signals every queue once and joins the threads. The
signal is meant to bring a thread out of `pop`, but `pop` re-tests only whether its queue
is empty, so that a thread whose queue has stayed empty goes back to sleep and nobody
signals it again. The shutdown is free of this deadlock in every run in which no thread
goes to sleep on a queue that has already been signalled; none does if a thread that is in
`pop` when its queue is signalled has a packet to take. The network of the program has a
run that ends in the deadlock.
-/
namespace VlanTagger.Pipeline

open Lib Nodes Queue

section

variable {ν κ : Type*}

/-- `pipeline_stop` has called `send_signal_queue` on `k`. -/
def State.Signalled (s : State ν κ) (k : κ) : Prop :=
  match s.stop with
  | .running => False
  | .signalling rest => k ∉ rest
  | .joining _ => True

/-- The flag is set and every queue has been signalled. -/
def State.AllSignalled (s : State ν κ) : Prop :=
  match s.stop with
  | .running => False
  | .signalling rest => rest = []
  | .joining _ => True

/-- The thread of `n` sleeps in `pop` on its empty input queue with no wake-up pending, and
every producer of that queue has left its loop. -/
def Deadlocked (T : Topology ν κ) (s : State ν κ) (n : ν) : Prop :=
  ∃ k, T.input n = some k ∧ (s.node n).pc = .asleep ∧ isEmpty (s.queue k) = true ∧
    ∀ m, k ∈ T.outputs m → (s.node m).pc = .left

/-- The step does not put a thread to sleep on a queue that has been signalled. -/
def SleepsUnsignalled (s : State ν κ) (e : Event ν κ) : Prop :=
  ∀ n k, e = .wait n k → ¬ s.Signalled k

/-- The thread is inside `pop`, or about to enter it. -/
def AtPop (st : NodeState κ) : Prop := InPop st ∨ st.pc = .asleep

/-- When `pipeline_stop` signals a queue, a thread that is in `pop` on it has a packet to take. -/
def SignalsFilled (T : Topology ν κ) (s : State ν κ) (e : Event ν κ) : Prop :=
  ∀ k n, e = .stopSignal k → T.input n = some k → AtPop (s.node n) → isEmpty (s.queue k) = false

theorem signalled_of_allSignalled {s : State ν κ} (h : s.AllSignalled) (k : κ) :
    s.Signalled k := by
  unfold State.AllSignalled at h
  unfold State.Signalled
  cases hs : s.stop with
  | running => simp only [hs] at h
  | signalling rest =>
    simp only [hs] at h ⊢
    rw [h]
    exact List.not_mem_nil
  | joining rest => trivial

theorem not_running_of_signalled {s : State ν κ} {k : κ} (h : s.Signalled k) : s.stop ≠ .running := by
  intro hs
  unfold State.Signalled at h
  rw [hs] at h
  exact h

/-! ## What a step does to a thread in `pop` and to a signal -/

theorem sending_ne_asleep (targets : List κ) (buffer : Memory UInt8) (size : UInt16) :
    Pc.sending targets buffer size ≠ .asleep := by
  cases targets <;> exact nofun

theorem after_ne_asleep (outputs : List κ) (effect : Effect) : Pc.after outputs effect ≠ .asleep := by
  cases effect with
  | sendToOutputs buffer size => exact sending_ne_asleep outputs buffer size
  | pushTo i buffer size =>
    rw [Pc.after]
    cases outputs[i]? <;> exact nofun
  | _ => exact nofun

/-- A node that has moved to another place in its loop and does not sleep there. -/
theorem asleep_setNode [DecidableEq ν] {s : State ν κ} {m n : ν} {st : NodeState κ} (hst : st.pc ≠ .asleep)
    (h : ((s.setNode m st).node n).pc = .asleep) : (s.node n).pc = .asleep := by
  change (Function.update s.node m st n).pc = .asleep at h
  by_cases hn : n = m
  · subst hn
    rw [Function.update_self] at h
    exact absurd h hst
  · rwa [Function.update_of_ne hn] at h

theorem not_atPop_of_pc {st : NodeState κ} (hcall : st.pc ≠ .call) (hasleep : st.pc ≠ .asleep)
    (hwoken : st.pc ≠ .woken) : ¬ AtPop st := by
  rintro (⟨hc | hw, -⟩ | ha)
  · exact hcall hc
  · exact hwoken hw
  · exact hasleep ha

theorem not_atPop_sending {st : NodeState κ} {targets : List κ} {buffer : Memory UInt8}
    {size : UInt16} (h : st.pc = .sending targets buffer size) : ¬ AtPop st := by
  apply not_atPop_of_pc <;> rw [h] <;> cases targets <;> exact nofun

/-- Behind its loop body a thread is out of `pop`. -/
theorem not_atPop_after {st : NodeState κ} {outputs : List κ} {effect : Effect}
    (h : st.pc = .after outputs effect) : ¬ AtPop st := by
  cases effect with
  | sendToOutputs buffer size => exact not_atPop_sending h
  | pushTo i buffer size =>
    rw [Pc.after] at h
    apply not_atPop_of_pc <;> rw [h] <;> cases outputs[i]? <;> exact nofun
  | _ => apply not_atPop_of_pc <;> rw [h] <;> exact nofun

theorem atPop_setNode [DecidableEq ν] {s : State ν κ} {m n : ν} {st : NodeState κ} (hst : ¬ AtPop st)
    (h : AtPop ((s.setNode m st).node n)) : AtPop (s.node n) := by
  change AtPop (Function.update s.node m st n) at h
  by_cases hn : n = m
  · subst hn
    rw [Function.update_self] at h
    exact absurd h hst
  · rwa [Function.update_of_ne hn] at h

variable [DecidableEq κ]

/-- A signal wakes the sleeper of its queue and puts nobody to sleep. -/
theorem asleep_signal {T : Topology ν κ} {s : State ν κ} {k : κ} {n : ν}
    (h : ((s.signal T k).node n).pc = .asleep) :
    (s.node n).pc = .asleep ∧ T.input n ≠ some k := by
  simp only [State.signal] at h
  split at h
  · cases h
  next hnot =>
  refine ⟨h, fun hin => hnot ⟨hin, ?_⟩⟩
  rw [h]
  rfl

theorem asleep_pushed {T : Topology ν κ} {s : State ν κ} {k : κ} {n : ν} {ret : Int} {q : QueueT}
    (h : ((s.pushed T k ret q).node n).pc = .asleep) : (s.node n).pc = .asleep := by
  unfold State.pushed at h
  split at h
  · exact (asleep_signal h).1
  · exact h

theorem atPop_signal {T : Topology ν κ} {s : State ν κ} {k : κ} {n : ν}
    (h : AtPop ((s.signal T k).node n)) : AtPop (s.node n) := by
  simp only [State.signal] at h
  split at h
  next hsleeps =>
    cases hpc : (s.node n).pc with
    | asleep => exact .inr hpc
    | _ =>
      rw [hpc] at hsleeps
      cases hsleeps.2
  · exact h

theorem atPop_pushed {T : Topology ν κ} {s : State ν κ} {k : κ} {n : ν} {ret : Int} {q : QueueT}
    (h : AtPop ((s.pushed T k ret q).node n)) : AtPop (s.node n) := by
  unfold State.pushed at h
  split at h
  · exact atPop_signal h
  · exact h

theorem stop_pushed {T : Topology ν κ} {s : State ν κ} {k : κ} {ret : Int} {q : QueueT} :
    (s.pushed T k ret q).stop = s.stop := by
  unfold State.pushed
  split <;> rfl

theorem isEmpty_pushed {T : Topology ν κ} {s : State ν κ} {k k' : κ} {buffer : Memory UInt8}
    {size : UInt16} {ret : Int} {q : QueueT} (call : push (s.queue k') buffer size = (ret, q))
    (h : isEmpty (s.queue k) = false) : isEmpty ((s.pushed T k' ret q).queue k) = false := by
  have hqueue : (s.pushed T k' ret q).queue k = Function.update s.queue k' q k := by
    unfold State.pushed
    split <;> rfl
  rw [hqueue, Function.update_apply]
  split
  next hk =>
    subst hk
    exact isEmpty_push call h
  · exact h

variable [DecidableEq ν]

/-- A thread sleeps after a step because it fell asleep in it, or because it slept before and
was not signalled. -/
theorem asleep_step {host : ByteOrder} {T : Topology ν κ} {s s' : State ν κ} {e : Event ν κ} {n : ν}
    (hs : Step host T s e s') (h : (s'.node n).pc = .asleep) :
    (∃ k, T.input n = some k ∧ e = .wait n k) ∨
      ((s.node n).pc = .asleep ∧ ∀ k, e = .stopSignal k → T.input n ≠ some k) := by
  cases hs with
  | enter => exact .inr ⟨asleep_setNode (by nofun) h, nofun⟩
  | exit => exact .inr ⟨asleep_setNode (by nofun) h, nofun⟩
  | recv => exact .inr ⟨asleep_setNode (after_ne_asleep _ _) h, nofun⟩
  | recvFailed => exact .inr ⟨asleep_setNode (after_ne_asleep _ _) h, nofun⟩
  | take => exact .inr ⟨asleep_setNode (after_ne_asleep _ _) h, nofun⟩
  | @wait m k pc input call =>
    by_cases hn : n = m
    · subst hn
      exact .inl ⟨k, input, rfl⟩
    · refine .inr ⟨?_, nofun⟩
      change (Function.update s.node m _ n).pc = .asleep at h
      rwa [Function.update_of_ne hn] at h
  | spuriousWakeup => exact .inr ⟨asleep_setNode (by nofun) h, nofun⟩
  | push => exact .inr ⟨asleep_setNode (sending_ne_asleep _ _ _) (asleep_pushed h), nofun⟩
  | dispatch => exact .inr ⟨asleep_setNode (by nofun) (asleep_pushed h), nofun⟩
  | sendto => exact .inr ⟨asleep_setNode (after_ne_asleep _ _) h, nofun⟩
  | stopFlag => exact .inr ⟨h, nofun⟩
  | @stopSignal k ks stop =>
    obtain ⟨hasleep, hin⟩ := asleep_signal h
    refine .inr ⟨hasleep, fun k' he => ?_⟩
    cases he
    exact hin
  | stopJoin => exact .inr ⟨h, nofun⟩
  | joined => exact .inr ⟨h, nofun⟩

/-- A queue becomes signalled by its own `send_signal_queue` only. -/
theorem signalled_step {host : ByteOrder} {T : Topology ν κ} {s s' : State ν κ} {e : Event ν κ}
    {k : κ} (hs : Step host T s e s') (h : s'.Signalled k) : s.Signalled k ∨ e = .stopSignal k := by
  cases hs with
  | push =>
    unfold State.Signalled at h ⊢
    rw [stop_pushed] at h
    exact .inl h
  | dispatch =>
    unfold State.Signalled at h ⊢
    rw [stop_pushed] at h
    exact .inl h
  | stopFlag => exact absurd (T.mem_queues k) h
  | @stopSignal k' ks stop =>
    by_cases hk : k = k'
    · exact .inr (hk ▸ rfl)
    · unfold State.Signalled
      rw [stop]
      exact .inl (List.not_mem_cons_of_ne_of_not_mem hk h)
  | stopJoin stop =>
    unfold State.Signalled
    rw [stop]
    exact .inl List.not_mem_nil
  | joined stop =>
    unfold State.Signalled
    rw [stop]
    exact .inl trivial
  | _ => exact .inl h

/-- The flag stays set. -/
theorem exit_step {host : ByteOrder} {T : Topology ν κ} {s s' : State ν κ} {e : Event ν κ}
    (h : s.shouldExit = true) (hs : Step host T s e s') :
    s'.shouldExit = true := by
  have hpushed : ∀ (s : State ν κ) (k : κ) (ret : Int) (q : QueueT), s.shouldExit = true →
      (s.pushed T k ret q).shouldExit = true := by
    intro s k ret q h
    unfold State.pushed
    split <;> exact h
  have hfinish : ∀ (s : State ν κ) (n : ν) (o : Outcome), s.shouldExit = true →
      (s.finish T n o).shouldExit = true := by
    intro s n o h
    show (s.shouldExit || _) = true
    rw [h, Bool.true_or]
  cases hs with
  | recv => exact hfinish s _ _ h
  | recvFailed => exact hfinish s _ _ h
  | take => exact hfinish (s.setQueue _ _) _ _ h
  | push => exact hpushed _ _ _ _ h
  | dispatch => exact hpushed _ _ _ _ h
  | sendto => exact hfinish s _ _ h
  | stopFlag => rfl
  | joined => rfl
  | _ => exact h

/-- `pipeline_stop` sets the flag before anything else. -/
theorem flag_step {host : ByteOrder} {T : Topology ν κ} {s s' : State ν κ} {e : Event ν κ}
    (hi : s.stop ≠ .running → s.shouldExit = true) (hs : Step host T s e s')
    (hstop : s'.stop ≠ .running) : s'.shouldExit = true := by
  by_cases hrun : s.stop = .running
  · cases hs with
    | stopFlag => rfl
    | stopSignal stop =>
      rw [hrun] at stop
      cases stop
    | stopJoin stop =>
      rw [hrun] at stop
      cases stop
    | joined => rfl
    | push =>
      rw [stop_pushed] at hstop
      exact absurd hrun hstop
    | dispatch =>
      rw [stop_pushed] at hstop
      exact absurd hrun hstop
    | _ => exact absurd hrun hstop
  · exact exit_step (hi hrun) hs

/-- A thread is in `pop` after a step because it was there before, or because it has just
entered it. -/
theorem atPop_step {host : ByteOrder} {T : Topology ν κ} {s s' : State ν κ} {e : Event ν κ} {n : ν}
    (hs : Step host T s e s') (h : AtPop (s'.node n)) : e = .enter n ∨ AtPop (s.node n) := by
  cases hs with
  | @enter m pc run checks =>
    by_cases hn : n = m
    · exact .inl (hn ▸ rfl)
    · change AtPop (Function.update s.node m _ n) at h
      rw [Function.update_of_ne hn] at h
      exact .inr h
  | exit => exact .inr (atPop_setNode (not_atPop_of_pc (by nofun) (by nofun) (by nofun)) h)
  | recv => exact .inr (atPop_setNode (not_atPop_after rfl) h)
  | recvFailed => exact .inr (atPop_setNode (not_atPop_after rfl) h)
  | take => exact .inr (atPop_setNode (not_atPop_after rfl) h)
  | @wait m k pc input call =>
    by_cases hn : n = m
    · exact .inr (hn ▸ .inl pc)
    · change AtPop (Function.update s.node m _ n) at h
      rw [Function.update_of_ne hn] at h
      exact .inr h
  | @spuriousWakeup m pc =>
    by_cases hn : n = m
    · exact .inr (hn ▸ .inr pc)
    · change AtPop (Function.update s.node m _ n) at h
      rw [Function.update_of_ne hn] at h
      exact .inr h
  | push => exact .inr (atPop_setNode (not_atPop_sending rfl) (atPop_pushed h))
  | dispatch =>
    exact .inr (atPop_setNode (not_atPop_of_pc (by nofun) (by nofun) (by nofun)) (atPop_pushed h))
  | sendto => exact .inr (atPop_setNode (not_atPop_after rfl) h)
  | stopSignal => exact .inr (atPop_signal h)
  | _ => exact .inr h

/-- A queue is emptied by its consumer only. -/
theorem isEmpty_step {host : ByteOrder} {T : Topology ν κ} {s s' : State ν κ} {e : Event ν κ} {k : κ}
    (hs : Step host T s e s') (h : isEmpty (s.queue k) = false) :
    isEmpty (s'.queue k) = false ∨ ∃ n effect, e = .take n k effect := by
  cases hs with
  | @take n k' ret buffer q rand pc input call =>
    by_cases hk : k = k'
    · subst hk
      exact .inr ⟨n, _, rfl⟩
    · refine .inl ?_
      change isEmpty (Function.update s.queue k' q k) = false
      rwa [Function.update_of_ne hk]
  | push _ call => exact .inl (isEmpty_pushed call h)
  | dispatch _ _ call => exact .inl (isEmpty_pushed call h)
  | _ => exact .inl h

theorem not_atPop_take {host : ByteOrder} {T : Topology ν κ} {s s' : State ν κ} {n m : ν} {k : κ}
    {effect : Effect} (hs : Step host T s (.take m k effect) s') (hin : T.input n = some k) :
    ¬ AtPop (s'.node n) := by
  cases hs with
  | take rand pc input call =>
    have hn : m = n := T.input_injective input hin
    subst hn
    simp only [State.finish, Function.update_self]
    exact not_atPop_after rfl

/-! ## Shutdown -/

/-- Nobody sleeps on a queue that has been signalled. -/
def NoneAsleep (T : Topology ν κ) (s : State ν κ) : Prop :=
  ∀ n k, T.input n = some k → s.Signalled k → (s.node n).pc ≠ .asleep

theorem noneAsleep_step {host : ByteOrder} {T : Topology ν κ} {s s' : State ν κ} {e : Event ν κ}
    (hi : NoneAsleep T s) (hs : Step host T s e s') (hc : SleepsUnsignalled s e) :
    NoneAsleep T s' := by
  intro n k hin hsig hasleep
  rcases asleep_step hs hasleep with ⟨k', hin', rfl⟩ | ⟨hbefore, hnot⟩
  · -- it fell asleep, on a queue without a signal, and this step signalled nothing
    have hk : k' = k := Option.some.inj (hin'.symm.trans hin)
    subst hk
    rcases signalled_step hs hsig with hsig' | he
    · exact hc n k' rfl hsig'
    · cases he
  · rcases signalled_step hs hsig with hsig' | he
    · exact hi n k hin hsig' hbefore
    · exact hnot k he hin

theorem noneAsleep_reachable {host : ByteOrder} {T : Topology ν κ} {process : ν → Process}
    {s : State ν κ} (h : ((runtime host T process).restrict SleepsUnsignalled).Reachable s) :
    NoneAsleep T s := by
  refine System.Reachable.invariant ?_ ?_ h
  · intro s hstart n k _ hsig
    obtain ⟨-, hstop, -⟩ := hstart
    unfold State.Signalled at hsig
    rw [hstop] at hsig
    exact hsig.elim
  · intro s e s' hi hs
    exact noneAsleep_step hi hs.1 hs.2

/-- Once `pipeline_stop` has begun the flag is set, and a thread in `pop` on a queue that
has been signalled has a packet to take. -/
structure Filled (T : Topology ν κ) (s : State ν κ) : Prop where
  flag : s.stop ≠ .running → s.shouldExit = true
  packet : ∀ {n k}, T.input n = some k → s.Signalled k → AtPop (s.node n) → isEmpty (s.queue k) = false

theorem filled_step {host : ByteOrder} {T : Topology ν κ} {s s' : State ν κ} {e : Event ν κ}
    (hi : Filled T s) (hs : Step host T s e s') (hc : SignalsFilled T s e) : Filled T s' := by
  refine ⟨flag_step hi.flag hs, fun {n k} hin hsig hat => ?_⟩
  have hqueue : isEmpty (s.queue k) = false := by
    rcases atPop_step hs hat with he | hbefore
    · -- no loop is entered after the flag
      cases hs with
      | enter pc run checks =>
        have hrunning := hi.flag (not_running_of_signalled (hsig : s.Signalled k))
        rw [run] at hrunning
        cases hrunning
      | _ => cases he
    · rcases signalled_step hs hsig with hsig' | he
      · exact hi.packet hin hsig' hbefore
      · exact hc k n he hin hbefore
  rcases isEmpty_step hs hqueue with hkept | ⟨m, effect, he⟩
  · exact hkept
  · -- only its own consumer takes from the queue, and it is out of `pop` then
    exact absurd hat (not_atPop_take (he ▸ hs) hin)

/-- A run whose signals find a packet for every thread in `pop` is one in which nobody goes to
sleep on a queue that has been signalled. -/
theorem sleepsUnsignalled_of_signalsFilled {host : ByteOrder} {T : Topology ν κ}
    {process : ν → Process} {s : State ν κ}
    (h : ((runtime host T process).restrict (SignalsFilled T)).Reachable s) :
    ((runtime host T process).restrict SleepsUnsignalled).Reachable s := by
  refine h.restrict (I := Filled T) ?_ (fun s e t hi hs hc => filled_step hi hs hc) ?_
  · intro s hstart
    obtain ⟨-, hstop, -⟩ := hstart
    exact ⟨fun hrun => absurd hstop hrun,
      fun _ hsig => absurd hstop (not_running_of_signalled hsig)⟩
  · intro s e t hi hs _ n k he hsig
    subst he
    cases hs with
    | wait pc input call =>
      have hempty := hi.packet input hsig (.inl pc)
      rw [pop_eq_none_iff] at call
      rw [call] at hempty
      cases hempty

/-- In every run whose threads never go to sleep on a queue that has been signalled, and so in
every run whose signals find a packet for each thread in `pop`, no state after the last signal
of `pipeline_stop` is deadlocked. -/
theorem shutdown_no_deadlock {host : ByteOrder} {T : Topology ν κ} {process : ν → Process}
    {s : State ν κ}
    (h : ((runtime host T process).restrict SleepsUnsignalled).Reachable s ∨
      ((runtime host T process).restrict (SignalsFilled T)).Reachable s)
    (hall : s.AllSignalled) (n : ν) : ¬ Deadlocked T s n := by
  have hrun : ((runtime host T process).restrict SleepsUnsignalled).Reachable s :=
    h.elim id sleepsUnsignalled_of_signalsFilled
  intro hdead
  obtain ⟨k, hin, hasleep, -⟩ := hdead
  exact noneAsleep_reachable hrun n k hin (signalled_of_allSignalled hall k) hasleep

end

/-! ## The network of the program -/

/-- The dispatcher waits for a packet, is woken by its signal, finds the queue empty and
waits again; then the sniffer sees the flag and leaves. -/
theorem shutdown_deadlocks :
    ∃ s, (vlanTaggerRuntime .little oneRange).Reachable s ∧ s.AllSignalled ∧
      Deadlocked vlanTagger s .dispatcher := by
  have h0 := System.Reachable.start (vlanTaggerStart_initial .little oneRange)
  have h1 := h0.step (.enter (n := .dispatcher) rfl rfl rfl)
  have h2 := h1.step (.wait (n := .dispatcher) ⟨.inl rfl, rfl⟩ rfl rfl)
  have h3 := h2.step (.stopFlag rfl)
  have h4 := h3.step (.stopSignal (k := .dispatcher) rfl)
  have h5 := h4.step (.stopSignal (k := .tagger1) rfl)
  have h6 := h5.step (.stopSignal (k := .tagger2) rfl)
  have h7 := h6.step (.stopSignal (k := .packetCounter) rfl)
  have h8 := h7.step (.stopSignal (k := .sender) rfl)
  have h9 := h8.step (.wait (n := .dispatcher) ⟨.inr rfl, rfl⟩ rfl rfl)
  have h10 := h9.step (.exit (n := .sniffer) rfl (.inl rfl))
  refine ⟨_, h10, rfl, .dispatcher, rfl, rfl, rfl, fun m hm => ?_⟩
  cases m with
  | sniffer => rfl
  | _ => exact absurd hm (by decide)

/-- The dispatcher sleeps on its empty queue when `pipeline_stop` signals it, and takes the
last frame of the sniffer before it looks at its queue again. -/
theorem sleeper_takes_last :
    ∃ tr s, ((vlanTaggerRuntime .little oneRange).restrict SleepsUnsignalled).Run tr s ∧
      s.AllSignalled ∧ tr = [.enter .dispatcher, .wait .dispatcher .dispatcher, .enter .sniffer,
        .stopFlag, .stopSignal .dispatcher, .stopSignal .tagger1, .stopSignal .tagger2,
        .stopSignal .packetCounter, .stopSignal .sender, .recv .sniffer [1, 2, 3],
        .push .sniffer .dispatcher true,
        .take .dispatcher .dispatcher (.pushTo 0 (s.node .dispatcher).buffer 3)] := by
  have h0 : ((vlanTaggerRuntime .little oneRange).restrict SleepsUnsignalled).Run []
      (vlanTaggerStart oneRange) := .start (vlanTaggerStart_initial .little oneRange)
  have h1 := h0.snoc ⟨.enter (n := .dispatcher) rfl rfl rfl, nofun⟩
  have h2 := h1.snoc ⟨.wait (n := .dispatcher) ⟨.inl rfl, rfl⟩ rfl rfl, fun _ _ _ hsig => hsig⟩
  have h3 := h2.snoc ⟨.enter (n := .sniffer) rfl rfl rfl, nofun⟩
  have h4 := h3.snoc ⟨.stopFlag rfl, nofun⟩
  have h5 := h4.snoc ⟨.stopSignal (k := .dispatcher) rfl, nofun⟩
  have h6 := h5.snoc ⟨.stopSignal (k := .tagger1) rfl, nofun⟩
  have h7 := h6.snoc ⟨.stopSignal (k := .tagger2) rfl, nofun⟩
  have h8 := h7.snoc ⟨.stopSignal (k := .packetCounter) rfl, nofun⟩
  have h9 := h8.snoc ⟨.stopSignal (k := .sender) rfl, nofun⟩
  have h10 := h9.snoc ⟨@Step.recv _ _ _ _ _ _ _ .sniffer [1, 2, 3] rfl rfl (by decide), nofun⟩
  have h11 := h10.snoc ⟨@Step.push _ _ _ _ _ _ _ .sniffer .dispatcher _ _ _ _ _ rfl rfl, nofun⟩
  have h12 := h11.snoc
    ⟨@Step.take _ _ _ _ _ _ _ .dispatcher .dispatcher _ _ _ 0 ⟨.inr rfl, rfl⟩ rfl rfl, nofun⟩
  exact ⟨_, _, h12, rfl, rfl⟩

/-- The dispatcher sleeps, a frame wakes it, and its queue is signalled while it is on its way
to that frame. -/
theorem woken_signalled :
    ∃ tr s, ((vlanTaggerRuntime .little oneRange).restrict (SignalsFilled vlanTagger)).Run tr s ∧
      s.AllSignalled ∧ tr = [.enter .dispatcher, .wait .dispatcher .dispatcher, .enter .sniffer,
        .recv .sniffer [1, 2, 3], .push .sniffer .dispatcher true, .stopFlag,
        .stopSignal .dispatcher, .stopSignal .tagger1, .stopSignal .tagger2,
        .stopSignal .packetCounter, .stopSignal .sender,
        .take .dispatcher .dispatcher (.pushTo 0 (s.node .dispatcher).buffer 3)] := by
  have hidle : ∀ {st : NodeState Channel}, st.pc = .test → ¬ AtPop st := fun hpc =>
    not_atPop_of_pc (by rw [hpc]; exact nofun) (by rw [hpc]; exact nofun) (by rw [hpc]; exact nofun)
  have h0 : ((vlanTaggerRuntime .little oneRange).restrict (SignalsFilled vlanTagger)).Run []
      (vlanTaggerStart oneRange) := .start (vlanTaggerStart_initial .little oneRange)
  have h1 := h0.snoc ⟨.enter (n := .dispatcher) rfl rfl rfl, nofun⟩
  have h2 := h1.snoc ⟨.wait (n := .dispatcher) ⟨.inl rfl, rfl⟩ rfl rfl, nofun⟩
  have h3 := h2.snoc ⟨.enter (n := .sniffer) rfl rfl rfl, nofun⟩
  have h4 := h3.snoc ⟨@Step.recv _ _ _ _ _ _ _ .sniffer [1, 2, 3] rfl rfl (by decide), nofun⟩
  have h5 := h4.snoc ⟨@Step.push _ _ _ _ _ _ _ .sniffer .dispatcher _ _ _ _ _ rfl rfl, nofun⟩
  have h6 := h5.snoc ⟨.stopFlag rfl, nofun⟩
  have h7 := h6.snoc ⟨.stopSignal (k := .dispatcher) rfl, fun k n he hin hat => by
    cases he
    cases n <;> cases hin
    rfl⟩
  have h8 := h7.snoc ⟨.stopSignal (k := .tagger1) rfl, fun k n he hin hat => by
    cases he
    cases n <;> cases hin
    exact absurd hat (hidle rfl)⟩
  have h9 := h8.snoc ⟨.stopSignal (k := .tagger2) rfl, fun k n he hin hat => by
    cases he
    cases n <;> cases hin
    exact absurd hat (hidle rfl)⟩
  have h10 := h9.snoc ⟨.stopSignal (k := .packetCounter) rfl, fun k n he hin hat => by
    cases he
    cases n <;> cases hin
    exact absurd hat (hidle rfl)⟩
  have h11 := h10.snoc ⟨.stopSignal (k := .sender) rfl, fun k n he hin hat => by
    cases he
    cases n <;> cases hin
    exact absurd hat (hidle rfl)⟩
  have h12 := h11.snoc
    ⟨@Step.take _ _ _ _ _ _ _ .dispatcher .dispatcher _ _ _ 0 ⟨.inr rfl, rfl⟩ rfl rfl, nofun⟩
  exact ⟨_, _, h12, rfl, rfl⟩

/-- Stopped while the dispatcher sleeps in `pop`, and stopped while it has been woken there. -/
theorem shutdown_no_deadlock_sleeper :
    (∃ tr s, (vlanTaggerRuntime .little oneRange).Run tr s ∧ s.AllSignalled ∧
        tr.take 5 = [.enter .dispatcher, .wait .dispatcher .dispatcher, .enter .sniffer, .stopFlag,
          .stopSignal .dispatcher] ∧ ∀ n, ¬ Deadlocked vlanTagger s n) ∧
      ∃ tr s, (vlanTaggerRuntime .little oneRange).Run tr s ∧ s.AllSignalled ∧
        tr.take 7 = [.enter .dispatcher, .wait .dispatcher .dispatcher, .enter .sniffer,
          .recv .sniffer [1, 2, 3], .push .sniffer .dispatcher true, .stopFlag,
          .stopSignal .dispatcher] ∧ ∀ n, ¬ Deadlocked vlanTagger s n := by
  obtain ⟨tr, s, hrun, hall, htr⟩ := sleeper_takes_last
  obtain ⟨tr', s', hrun', hall', htr'⟩ := woken_signalled
  exact ⟨⟨tr, s, hrun.of_restrict, hall, by rw [htr]; rfl,
      shutdown_no_deadlock (.inl hrun.reachable) hall⟩,
    tr', s', hrun'.of_restrict, hall', by rw [htr']; rfl,
      shutdown_no_deadlock (.inr hrun'.reachable) hall'⟩

end VlanTagger.Pipeline
