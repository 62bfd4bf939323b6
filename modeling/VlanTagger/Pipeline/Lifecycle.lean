import Mathlib.Logic.Function.Basic
import VlanTagger.Lib.Transition

/-!
# The life cycle of the threads

`main` from `pipeline_start` on, the threads of the nodes as far as their creation and
their end, and any number of calls of `signal_handler`. A signal is handled by `main` or
by the thread of a node, which goes on when the handler returns; handlers of different
threads run side by side. A `pthread_join` is a call and, later, a return. The law is that
a thread is joined once, when it has been created, and that nothing is destroyed while a
created thread has not been joined. It is kept as long as no handler comes to its joins and
no `pthread_create` fails behind one that succeeded.
-/
namespace VlanTagger.Pipeline.Lifecycle

open Lib

/-- Where `main` is. -/
inductive MainPc
  /-- in the loop of `pipeline_start`, before `node_start(nodes[i])` -/
  | starting (i : Nat)
  /-- in the loop behind `pipeline_start`, before `pthread_join(nodes[i]->thread)` -/
  | joining (i : Nat)
  /-- inside that `pthread_join` -/
  | waiting (i : Nat)
  /-- before `cleanup` -/
  | cleanup
  /-- behind `pipeline_destroy` -/
  | destroyed
  | exited

inductive Thread
  | notCreated
  | running
  | finished

/-- Where a call of `signal_handler` is in `pipeline_stop`. -/
inductive HandlerPc
  | flag
  /-- before `send_signal_queue(queues[k])` -/
  | signalling (k : Nat)
  /-- in `node_stop(nodes[i])`, before `pthread_join` -/
  | joining (i : Nat)
  | waiting (i : Nat)

/-- A thread that may handle a signal. -/
inductive Host
  | main
  | node (i : Nat)
  deriving DecidableEq

structure Activation where
  host : Host
  pc : HandlerPc

structure State where
  main : MainPc
  thread : Nat → Thread
  shouldExit : Bool
  /-- The calls of the handler that have not returned, the latest first. -/
  handlers : List Activation

inductive Caller
  | main
  | handler

inductive Event
  | created (i : Nat)
  | createFailed (i : Nat)
  /-- `pipeline_start` returned 0 -/
  | started
  | joinCall (c : Caller) (i : Nat)
  | joined (i : Nat)
  /-- `pthread_join` of the calling thread itself: `EDEADLK` -/
  | joinFailed (i : Nat)
  | joinedAll
  | destroy
  | exit
  | finish (i : Nat)
  /-- a node sets `*node->should_exit` itself and returns -/
  | giveUp (i : Nat)
  | signal (h : Host)
  | setFlag
  | queueSignal (k : Nat)
  | handled

/-- The thread is not inside a handler. -/
def State.Undisturbed (s : State) (h : Host) : Prop := ∀ a ∈ s.handlers, a.host ≠ h

def State.setThread (s : State) (i : Nat) (t : Thread) : State :=
  { s with thread := Function.update s.thread i t }

/-- The handler of `h` that runs: its latest one. -/
structure State.Handles (s : State) (newer : List Activation) (h : Host) (pc : HandlerPc)
    (older : List Activation) : Prop where
  alive : s.main ≠ .exited
  handlers : s.handlers = newer ++ ⟨h, pc⟩ :: older
  latest : ∀ a ∈ newer, a.host ≠ h

/-- The steps of a program with `nodeCount` nodes and `queueCount` queues. -/
inductive Step (nodeCount queueCount : Nat) : State → Event → State → Prop
  | created {s : State} {i : Nat} (pc : s.main = .starting i) (free : s.Undisturbed .main)
      (more : i < nodeCount) :
      Step nodeCount queueCount s (.created i) { s.setThread i .running with main := .starting (i + 1) }
  | createFailed {s : State} {i : Nat} (pc : s.main = .starting i) (free : s.Undisturbed .main)
      (more : i < nodeCount) :
      Step nodeCount queueCount s (.createFailed i) { s with main := .cleanup }
  | started {s : State} (pc : s.main = .starting nodeCount) (free : s.Undisturbed .main) :
      Step nodeCount queueCount s .started { s with main := .joining 0 }
  | joinCall {s : State} {i : Nat} (pc : s.main = .joining i) (free : s.Undisturbed .main)
      (more : i < nodeCount) :
      Step nodeCount queueCount s (.joinCall .main i) { s with main := .waiting i }
  | joined {s : State} {i : Nat} (pc : s.main = .waiting i) (free : s.Undisturbed .main)
      (done : s.thread i = .finished) :
      Step nodeCount queueCount s (.joined i) { s with main := .joining (i + 1) }
  | joinedAll {s : State} (pc : s.main = .joining nodeCount) (free : s.Undisturbed .main) :
      Step nodeCount queueCount s .joinedAll { s with main := .cleanup }
  | destroy {s : State} (pc : s.main = .cleanup) (free : s.Undisturbed .main) :
      Step nodeCount queueCount s .destroy { s with main := .destroyed }
  | exit {s : State} (pc : s.main = .destroyed) (free : s.Undisturbed .main) :
      Step nodeCount queueCount s .exit { s with main := .exited }
  /-- The loop of the node ends, by its test of `should_exit` or by a `break`. -/
  | finish {s : State} {i : Nat} (alive : s.main ≠ .exited) (run : s.thread i = .running)
      (free : s.Undisturbed (.node i)) :
      Step nodeCount queueCount s (.finish i) (s.setThread i .finished)
  | giveUp {s : State} {i : Nat} (alive : s.main ≠ .exited) (run : s.thread i = .running)
      (free : s.Undisturbed (.node i)) :
      Step nodeCount queueCount s (.giveUp i) { s.setThread i .finished with shouldExit := true }
  | signal {s : State} (h : Host) (alive : s.main ≠ .exited)
      (run : ∀ i, h = .node i → s.thread i = .running) :
      Step nodeCount queueCount s (.signal h) { s with handlers := ⟨h, .flag⟩ :: s.handlers }
  | setFlag {s : State} {newer older : List Activation} {h : Host} (at_ : s.Handles newer h .flag older) :
      Step nodeCount queueCount s .setFlag
        { s with shouldExit := true, handlers := newer ++ ⟨h, .signalling 0⟩ :: older }
  | queueSignal {s : State} {newer older : List Activation} {h : Host} {k : Nat}
      (at_ : s.Handles newer h (.signalling k) older) (more : k < queueCount) :
      Step nodeCount queueCount s (.queueSignal k)
        { s with handlers := newer ++ ⟨h, .signalling (k + 1)⟩ :: older }
  | stopCall {s : State} {newer older : List Activation} {h : Host} {i : Nat} {pc : HandlerPc}
      (at_ : s.Handles newer h pc older)
      (next : pc = .joining i ∨ pc = .signalling queueCount ∧ i = 0) (more : i < nodeCount) :
      Step nodeCount queueCount s (.joinCall .handler i)
        { s with shouldExit := true, handlers := newer ++ ⟨h, .waiting i⟩ :: older }
  | stopJoined {s : State} {newer older : List Activation} {h : Host} {i : Nat}
      (at_ : s.Handles newer h (.waiting i) older) (other : h ≠ .node i)
      (done : s.thread i = .finished) :
      Step nodeCount queueCount s (.joined i)
        { s with handlers := newer ++ ⟨h, .joining (i + 1)⟩ :: older }
  | stopFailed {s : State} {newer older : List Activation} {i : Nat}
      (at_ : s.Handles newer (.node i) (.waiting i) older) :
      Step nodeCount queueCount s (.joinFailed i)
        { s with handlers := newer ++ ⟨.node i, .joining (i + 1)⟩ :: older }
  | handled {s : State} {newer older : List Activation} {h : Host} {pc : HandlerPc}
      (at_ : s.Handles newer h pc older)
      (last : pc = .joining nodeCount ∨ pc = .signalling queueCount ∧ nodeCount = 0) :
      Step nodeCount queueCount s .handled { s with handlers := newer ++ older }

/-- `pipeline_start` has been called, and no thread exists. -/
def start : State := ⟨.starting 0, fun _ => .notCreated, false, []⟩

def lifecycle (nodeCount queueCount : Nat) : System State Event where
  init := fun s => s = start
  step := Step nodeCount queueCount

/-! ## The law -/

/-- Only threads that exist are joined, once, and only then they lose their node and queues. -/
structure Lawful (tr : List Event) : Prop where
  joins : ∀ pre c i post, tr = pre ++ .joinCall c i :: post →
    .created i ∈ pre ∧ .joined i ∉ pre ∧ ∀ c', .joinCall c' i ∉ pre
  destroys : ∀ pre post, tr = pre ++ .destroy :: post → ∀ i, .created i ∈ pre → .joined i ∈ pre

/-- The step is no `pthread_join` of a handler and no failure behind a creation. -/
def Orderly (e : Event) : Prop := (∀ i, e ≠ .joinCall .handler i) ∧ ∀ i, e = .createFailed i → i = 0

/-- An occurrence in an extended trace is the last label, or an earlier occurrence. -/
theorem append_cons_eq_snoc {α : Type*} {pre post tr : List α} {x e : α}
    (h : tr ++ [e] = pre ++ x :: post) : tr = pre ∧ e = x ∨ ∃ post', tr = pre ++ x :: post' := by
  rcases List.eq_nil_or_concat post with rfl | ⟨post', y, rfl⟩
  · obtain ⟨htr, he⟩ := List.append_inj' h rfl
    exact .inl ⟨htr, (List.cons.inj he).1⟩
  · rw [List.concat_eq_append, ← List.cons_append, ← List.append_assoc] at h
    exact .inr ⟨post', (List.append_inj' h rfl).1⟩

theorem lawful_nil : Lawful [] :=
  ⟨fun pre _ _ _ h => by simp at h, fun pre _ h => by simp at h⟩

theorem Lawful.snoc {tr : List Event} {e : Event} (h : Lawful tr)
    (hjoin : ∀ c i, e = .joinCall c i →
      .created i ∈ tr ∧ .joined i ∉ tr ∧ ∀ c', .joinCall c' i ∉ tr)
    (hdestroy : e = .destroy → ∀ i, .created i ∈ tr → .joined i ∈ tr) : Lawful (tr ++ [e]) := by
  refine ⟨fun pre c i post heq => ?_, fun pre post heq => ?_⟩
  · rcases append_cons_eq_snoc heq with ⟨rfl, rfl⟩ | ⟨post', rfl⟩
    · exact hjoin c i rfl
    · exact h.joins pre c i post' rfl
  · rcases append_cons_eq_snoc heq with ⟨rfl, rfl⟩ | ⟨post', rfl⟩
    · exact hdestroy rfl
    · exact h.destroys pre post' rfl

/-! ## Its proof -/

/-- The threads below `created` have been created, and those below `joined` joined. -/
structure Progress (nodeCount : Nat) (tr : List Event) (s : State) (created joined : Nat) : Prop where
  created_iff : ∀ i, .created i ∈ tr ↔ i < created
  joined_iff : ∀ i, .joined i ∈ tr ↔ i < joined
  called : ∀ c i, .joinCall c i ∈ tr → i < joined ∨ s.main = .waiting i
  handlers : ∀ a ∈ s.handlers, ∀ i, a.pc ≠ .waiting i
  main : match s.main with
    | .starting i => created = i ∧ joined = 0
    | .joining i => created = nodeCount ∧ joined = i
    | .waiting i => created = nodeCount ∧ joined = i ∧ i < nodeCount
    | _ => created = joined

section

variable {nodeCount queueCount : Nat} {tr : List Event} {s s' : State} {e : Event} {c j : Nat}

/-- A step that creates and joins nothing. -/
theorem Progress.other (h : Progress nodeCount tr s c j) (hc : ∀ i, e ≠ .created i)
    (hj : ∀ i, e ≠ .joined i) (hcall : ∀ caller i, e ≠ .joinCall caller i)
    (hwait : ∀ i, s.main = .waiting i → s'.main = .waiting i)
    (hhandlers : ∀ a ∈ s'.handlers, ∀ i, a.pc ≠ .waiting i)
    (hmain : match s'.main with
      | .starting i => c = i ∧ j = 0
      | .joining i => c = nodeCount ∧ j = i
      | .waiting i => c = nodeCount ∧ j = i ∧ i < nodeCount
      | _ => c = j) : Progress nodeCount (tr ++ [e]) s' c j := by
  have hmem : ∀ x, x ≠ e → (x ∈ tr ++ [e] ↔ x ∈ tr) := fun x hx => by
    rw [List.mem_append, List.mem_singleton, or_iff_left hx]
  refine ⟨fun i => ?_, fun i => ?_, fun caller i hi => ?_, hhandlers, hmain⟩
  · rw [hmem _ (hc i).symm, h.created_iff]
  · rw [hmem _ (hj i).symm, h.joined_iff]
  · exact (h.called caller i ((hmem _ (hcall caller i).symm).mp hi)).imp_right (hwait i)

/-- The latest handler has moved on, but not into a join. -/
theorem Progress.handlers_replace (h : Progress nodeCount tr s c j) {newer older : List Activation}
    {host : Host} {pc pc' : HandlerPc} (hs : s.Handles newer host pc older)
    (hpc : ∀ i, pc' ≠ .waiting i) : ∀ a ∈ newer ++ ⟨host, pc'⟩ :: older, ∀ i, a.pc ≠ .waiting i := by
  have hall := h.handlers
  rw [hs.handlers] at hall
  intro a ha
  rcases List.mem_append.mp ha with ha | ha
  · exact hall a (List.mem_append_left _ ha)
  · rcases List.mem_cons.mp ha with rfl | ha
    · exact hpc
    · exact hall a (List.mem_append_right _ (List.mem_cons_of_mem _ ha))

theorem Progress.not_waiting (h : Progress nodeCount tr s c j) {newer older : List Activation}
    {host : Host} {i : Nat} (hs : s.Handles newer host (.waiting i) older) : False := by
  have hall := h.handlers
  rw [hs.handlers] at hall
  exact hall ⟨host, .waiting i⟩ (List.mem_append_right _ List.mem_cons_self) i rfl

theorem progress_step (h : Progress nodeCount tr s c j) (hs : Step nodeCount queueCount s e s')
    (he : Orderly e) : ∃ c' j', Progress nodeCount (tr ++ [e]) s' c' j' := by
  have hmain := h.main
  -- `main` is not in a `pthread_join`
  have hbusy : ∀ {pc : MainPc}, s.main = pc → (∀ i, pc ≠ .waiting i) →
      ∀ i, s.main = .waiting i → s'.main = .waiting i := by
    intro pc hpc hne i hi
    exact absurd (hpc.symm.trans hi) (hne i)
  have hidle : ∀ {caller i}, (∀ i, s.main ≠ .waiting i) → .joinCall caller i ∈ tr → i < j := by
    intro caller i hne hmem
    exact (h.called caller i hmem).resolve_right (hne i)
  cases hs with
  | @created i pc free more =>
    rw [pc] at hmain
    obtain ⟨rfl, rfl⟩ := hmain
    refine ⟨c + 1, 0, fun k => ?_, fun k => ?_, fun caller k hk => ?_, h.handlers, rfl, rfl⟩
    · rw [List.mem_append, List.mem_singleton, h.created_iff, Event.created.injEq]
      omega
    · rw [List.mem_append, List.mem_singleton, h.joined_iff]
      simp only [reduceCtorEq, or_false]
    · rw [List.mem_append, List.mem_singleton] at hk
      exact .inl (hidle (by rw [pc]; exact nofun) (hk.resolve_right nofun))
  | @createFailed i pc free more =>
    rw [pc] at hmain
    have hzero := he.2 i rfl
    exact ⟨c, j, h.other nofun nofun nofun (hbusy pc nofun) h.handlers (by change c = j; omega)⟩
  | started pc free =>
    rw [pc] at hmain
    exact ⟨c, j, h.other nofun nofun nofun (hbusy pc nofun) h.handlers hmain⟩
  | @joinCall i pc free more =>
    rw [pc] at hmain
    obtain ⟨hc, rfl⟩ := hmain
    refine ⟨c, j, fun k => ?_, fun k => ?_, fun caller k hk => ?_, h.handlers, hc, rfl, more⟩
    · rw [List.mem_append, List.mem_singleton, h.created_iff]
      simp only [reduceCtorEq, or_false]
    · rw [List.mem_append, List.mem_singleton, h.joined_iff]
      simp only [reduceCtorEq, or_false]
    · rw [List.mem_append, List.mem_singleton, Event.joinCall.injEq] at hk
      rcases hk with hk | ⟨-, rfl⟩
      · exact .inl (hidle (by rw [pc]; exact nofun) hk)
      · exact .inr rfl
  | @joined i pc free done =>
    rw [pc] at hmain
    obtain ⟨hc, rfl, hlt⟩ := hmain
    refine ⟨c, j + 1, fun k => ?_, fun k => ?_, fun caller k hk => .inl ?_, h.handlers, hc, rfl⟩
    · rw [List.mem_append, List.mem_singleton, h.created_iff]
      simp only [reduceCtorEq, or_false]
    · rw [List.mem_append, List.mem_singleton, h.joined_iff, Event.joined.injEq]
      omega
    · rw [List.mem_append, List.mem_singleton] at hk
      rcases h.called caller k (hk.resolve_right nofun) with hlt | hwaiting
      · omega
      · rw [pc] at hwaiting
        cases hwaiting
        exact Nat.lt_succ_self j
  | joinedAll pc free =>
    rw [pc] at hmain
    exact ⟨c, j, h.other nofun nofun nofun (hbusy pc nofun) h.handlers (hmain.1.trans hmain.2.symm)⟩
  | destroy pc free =>
    rw [pc] at hmain
    exact ⟨c, j, h.other nofun nofun nofun (hbusy pc nofun) h.handlers hmain⟩
  | exit pc free =>
    rw [pc] at hmain
    exact ⟨c, j, h.other nofun nofun nofun (hbusy pc nofun) h.handlers hmain⟩
  | finish alive run free => exact ⟨c, j, h.other nofun nofun nofun (fun _ => id) h.handlers hmain⟩
  | giveUp alive run free => exact ⟨c, j, h.other nofun nofun nofun (fun _ => id) h.handlers hmain⟩
  | signal host alive run =>
    exact ⟨c, j, h.other nofun nofun nofun (fun _ => id)
      (List.forall_mem_cons.mpr ⟨nofun, h.handlers⟩) hmain⟩
  | setFlag at_ =>
    exact ⟨c, j, h.other nofun nofun nofun (fun _ => id) (h.handlers_replace at_ nofun) hmain⟩
  | queueSignal at_ more =>
    exact ⟨c, j, h.other nofun nofun nofun (fun _ => id) (h.handlers_replace at_ nofun) hmain⟩
  | @stopCall newer older host i pc at_ next more => exact absurd rfl (he.1 i)
  | stopJoined at_ other done => exact (h.not_waiting at_).elim
  | stopFailed at_ => exact (h.not_waiting at_).elim
  | handled at_ last =>
    refine ⟨c, j, h.other nofun nofun nofun (fun _ => id) (fun a ha => ?_) hmain⟩
    apply h.handlers a
    rw [at_.handlers]
    exact (List.mem_append.mp ha).elim (List.mem_append_left _)
      fun ha => List.mem_append_right _ (List.mem_cons_of_mem _ ha)

/-- What the step has to respect is what the progress so far allows. -/
theorem lawful_step (hl : Lawful tr) (h : Progress nodeCount tr s c j)
    (hs : Step nodeCount queueCount s e s') (he : Orderly e) : Lawful (tr ++ [e]) := by
  have hmain := h.main
  refine hl.snoc (fun caller i hcall => ?_) fun hdestroy i hcreated => ?_
  · subst hcall
    cases hs with
    | joinCall pc free more =>
      rw [pc] at hmain
      obtain ⟨hc, rfl⟩ := hmain
      rw [h.created_iff, h.joined_iff]
      refine ⟨hc ▸ more, Nat.lt_irrefl j, fun caller' hcalled => ?_⟩
      rcases h.called caller' j hcalled with hlt | hwaiting
      · exact Nat.lt_irrefl j hlt
      · rw [pc] at hwaiting
        cases hwaiting
    | stopCall at_ next more => exact absurd rfl (he.1 i)
  · subst hdestroy
    cases hs with
    | destroy pc free =>
      rw [pc] at hmain
      have heq : c = j := hmain
      rw [h.created_iff] at hcreated
      rw [h.joined_iff]
      omega

end

/-- In every run in which no handler comes to its joins and no creation fails behind another
one, threads are joined and the pipeline is destroyed by the law. -/
theorem threads_joined_lawfully {nodeCount queueCount : Nat} {tr : List Event} {s : State}
    (h : ((lifecycle nodeCount queueCount).restrict fun _ e => Orderly e).Run tr s) : Lawful tr := by
  have hinv : Lawful tr ∧ ∃ c j, Progress nodeCount tr s c j := by
    refine h.invariant (I := fun tr s => Lawful tr ∧ ∃ c j, Progress nodeCount tr s c j) ?_ ?_
    · rintro s rfl
      exact ⟨lawful_nil, 0, 0, by simp, by simp, nofun, nofun, rfl, rfl⟩
    · rintro tr s e s' - ⟨hl, c, j, hp⟩ ⟨hs, he⟩
      exact ⟨lawful_step hl hp hs he, progress_step hp hs he⟩
  exact hinv.1

/-- Two threads: both are created, joined and destroyed; or a handler on the second sets the flag
and signals the queue, and `main` joins the first. -/
theorem threads_joined_lawfully_signalled :
    (∃ tr s, (lifecycle 2 1).Run tr s ∧ s.main = .destroyed ∧ Lawful tr) ∧
      ∃ tr s, (lifecycle 2 1).Run tr s ∧ .queueSignal 0 ∈ tr ∧ .joined 0 ∈ tr ∧ Lawful tr := by
  have h0 : ((lifecycle 2 1).restrict fun _ e => Orderly e).Run [] start := .start rfl
  have h1 := h0.snoc ⟨.created (i := 0) rfl nofun (by decide), nofun, nofun⟩
  have h2 := h1.snoc ⟨.created (i := 1) rfl nofun (by decide), nofun, nofun⟩
  have h3 := h2.snoc ⟨.started rfl nofun, nofun, nofun⟩
  constructor
  · have h4 := h3.snoc ⟨.giveUp (i := 0) nofun rfl nofun, nofun, nofun⟩
    have h5 := h4.snoc ⟨.finish (i := 1) nofun rfl nofun, nofun, nofun⟩
    have h6 := h5.snoc ⟨.joinCall rfl nofun (by decide), nofun, nofun⟩
    have h7 := h6.snoc ⟨.joined rfl nofun rfl, nofun, nofun⟩
    have h8 := h7.snoc ⟨.joinCall rfl nofun (by decide), nofun, nofun⟩
    have h9 := h8.snoc ⟨.joined rfl nofun rfl, nofun, nofun⟩
    have h10 := h9.snoc ⟨.joinedAll rfl nofun, nofun, nofun⟩
    have h11 := h10.snoc ⟨.destroy rfl nofun, nofun, nofun⟩
    exact ⟨_, _, h11.of_restrict, rfl, threads_joined_lawfully h11⟩
  · have h4 := h3.snoc ⟨.signal (.node 1) nofun fun i hi => by cases hi; rfl, nofun, nofun⟩
    have h5 := h4.snoc ⟨@Step.setFlag _ _ _ [] [] _ ⟨nofun, rfl, nofun⟩, nofun, nofun⟩
    have h6 := h5.snoc
      ⟨@Step.queueSignal _ _ _ [] [] _ 0 ⟨nofun, rfl, nofun⟩ (by decide), nofun, nofun⟩
    -- neither the first thread nor `main` is in a handler
    have hfree : ∀ h, h ≠ .node 1 → ∀ a ∈ [Activation.mk (.node 1) (.signalling 1)], a.host ≠ h := by
      intro h hne a ha
      rw [List.mem_singleton.mp ha]
      exact hne.symm
    have h7 := h6.snoc ⟨.finish (i := 0) nofun rfl (hfree _ (by decide)), nofun, nofun⟩
    have h8 := h7.snoc ⟨.joinCall rfl (hfree _ (by decide)) (by decide), nofun, nofun⟩
    have h9 := h8.snoc ⟨.joined rfl (hfree _ (by decide)) rfl, nofun, nofun⟩
    exact ⟨_, _, h9.of_restrict, by simp, by simp, threads_joined_lawfully h9⟩

/-- Six nodes and five queues, as in the network of the program. The second `pthread_create`
fails, and the pipeline is destroyed under the first thread. Or all threads run, a signal
is handled on the last of them, and `main` joins a thread that the handler has joined. -/
theorem threads_joined_unlawfully :
    (∃ tr s, (lifecycle 6 5).Run tr s ∧ .createFailed 1 ∈ tr ∧ ¬ Lawful tr) ∧
      ∃ tr s, (lifecycle 6 5).Run tr s ∧ .joinCall .handler 0 ∈ tr ∧ ¬ Lawful tr := by
  have h0 : (lifecycle 6 5).Run [] start := .start rfl
  have h1 := h0.snoc (.created rfl nofun (by decide))
  constructor
  · have h2 := h1.snoc (.createFailed rfl nofun (by decide))
    have h3 := h2.snoc (.destroy rfl nofun)
    refine ⟨_, _, h3, by simp, fun hlawful => ?_⟩
    have hjoined := hlawful.destroys _ [] rfl 0 (by simp)
    simp at hjoined
  · have h2 := h1.snoc (.created rfl nofun (by decide))
    have h3 := h2.snoc (.created rfl nofun (by decide))
    have h4 := h3.snoc (.created rfl nofun (by decide))
    have h5 := h4.snoc (.created rfl nofun (by decide))
    have h6 := h5.snoc (.created rfl nofun (by decide))
    have h7 := h6.snoc (.started rfl nofun)
    have h8 := h7.snoc (.signal (.node 5) nofun fun i hi => by cases hi; rfl)
    have h9 := h8.snoc (@Step.setFlag _ _ _ [] [] _ ⟨nofun, rfl, nofun⟩)
    have h10 := h9.snoc (@Step.queueSignal _ _ _ [] [] _ 0 ⟨nofun, rfl, nofun⟩ (by decide))
    have h11 := h10.snoc (@Step.queueSignal _ _ _ [] [] _ 1 ⟨nofun, rfl, nofun⟩ (by decide))
    have h12 := h11.snoc (@Step.queueSignal _ _ _ [] [] _ 2 ⟨nofun, rfl, nofun⟩ (by decide))
    have h13 := h12.snoc (@Step.queueSignal _ _ _ [] [] _ 3 ⟨nofun, rfl, nofun⟩ (by decide))
    have h14 := h13.snoc (@Step.queueSignal _ _ _ [] [] _ 4 ⟨nofun, rfl, nofun⟩ (by decide))
    have h15 := h14.snoc
      (@Step.stopCall _ _ _ [] [] _ 0 _ ⟨nofun, rfl, nofun⟩ (.inr ⟨rfl, rfl⟩) (by decide))
    have h16 := h15.snoc (.finish (i := 0) nofun rfl fun a ha => by
      rw [List.mem_singleton.mp ha]
      decide)
    have h17 := h16.snoc (@Step.stopJoined _ _ _ [] [] _ 0 ⟨nofun, rfl, nofun⟩ (by decide) rfl)
    have h18 := h17.snoc (.joinCall rfl (fun a ha => by
      rw [List.mem_singleton.mp ha]
      decide) (by decide))
    refine ⟨_, _, h18, by simp, fun hlawful => ?_⟩
    exact (hlawful.joins _ .main 0 [] rfl).2.1 (by simp)

end VlanTagger.Pipeline.Lifecycle
