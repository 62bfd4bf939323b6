import VlanTagger.Lib.Critical
import VlanTagger.Lib.Potential

/-!
# A lock and calls that interrupt their own thread

A thread in a call may be interrupted and start another call, which has to return before the
first goes on. The calls of a thread are a stack of which only the newest runs, and each call
is a thread of its own for the lock. So what holds of any interleaving of calls still holds of
the file. But a call that waits for the lock which an older call of the same thread holds waits
for ever, and then so does everybody: the lock can be released again exactly if there is no
such call.
-/
namespace VlanTagger.Lib

/-- The calls of the thread `t` are `(t, 0)`, `(t, 1)` and so on, one inside the other. -/
structure Interrupted (Tid κ α ρ : Type*) where
  base : Shared (Tid × Nat) κ α ρ
  depth : Tid → Nat

/-- The call of a label. -/
def Act.caller {Tid κ α ρ : Type*} : Act Tid κ α ρ → Tid
  | .call t _ => t
  | .lock t _ => t
  | .write t _ => t
  | .unlock t => t
  | .ret t _ => t

/-- The call goes on. -/
def Act.isWithin {Tid κ α ρ : Type*} : Act Tid κ α ρ → Bool
  | .call _ _ => false
  | .ret _ _ => false
  | _ => true

section

variable {Tid κ α ρ : Type*} [DecidableEq Tid]

/-- The newest call of a thread goes on or returns, or a newer one starts. -/
inductive InterruptedStep (R : Recorder κ α ρ) :
    Interrupted Tid κ α ρ → Act (Tid × Nat) κ α ρ → Interrupted Tid κ α ρ → Prop
  | call {s b t c} (h : RecorderStep R s.base (.call (t, s.depth t) c) b) :
      InterruptedStep R s (.call (t, s.depth t) c) ⟨b, Function.update s.depth t (s.depth t + 1)⟩
  | go {s b e t d} (newest : s.depth t = d + 1) (caller : e.caller = (t, d))
      (within : e.isWithin = true) (h : RecorderStep R s.base e b) :
      InterruptedStep R s e ⟨b, s.depth⟩
  | ret {s b t d v} (newest : s.depth t = d + 1) (h : RecorderStep R s.base (.ret (t, d) v) b) :
      InterruptedStep R s (.ret (t, d) v) ⟨b, Function.update s.depth t d⟩

def interruptedSystem (R : Recorder κ α ρ) (content : List α) :
    System (Interrupted Tid κ α ρ) (Act (Tid × Nat) κ α ρ) where
  init := fun s => s = ⟨⟨none, content, fun _ => none⟩, fun _ => 0⟩
  step := InterruptedStep R

variable {R : Recorder κ α ρ} {content : List α} {s s' : Interrupted Tid κ α ρ}
  {tr tr' : List (Act (Tid × Nat) κ α ρ)} {e : Act (Tid × Nat) κ α ρ}

theorem InterruptedStep.base (h : InterruptedStep R s e s') : RecorderStep R s.base e s'.base := by
  cases h with
  | call h => exact h
  | go _ _ _ h => exact h
  | ret _ h => exact h

/-- For the lock, the calls of all threads are threads in some interleaving. -/
theorem interrupted_simulation : System.Simulation (interruptedSystem R content)
    (recorderSystem R content) fun (s : Interrupted Tid κ α ρ) b => b = s.base := by
  refine ⟨fun s hs => ⟨s.base, ?_, rfl⟩, ?_⟩
  · rw [show s = _ from hs]
    rfl
  · intro s s' e b hb hs
    subst hb
    exact ⟨_, hs.base, rfl⟩

theorem interrupted_recorded (h : (interruptedSystem R content).Run tr s) :
    Recorded R content tr s.base := by
  obtain ⟨b, hb, rfl⟩ := interrupted_simulation.run h
  exact recorded_run hb

/-- The call that holds the lock has still to release it. -/
theorem Recorded.holder {Tid : Type*} [DecidableEq Tid] {tr : List (Act Tid κ α ρ)}
    {s : Shared Tid κ α ρ} (h : Recorded R content tr s) {t : Tid} (howner : s.owner = some t) :
    ∃ c cmd failure value rest, s.thread t = some (c, cmd) ∧ Guarded failure value cmd rest := by
  have hstage := h.stage t
  generalize s.thread t = r at hstage
  cases hstage with
  | idle free => exact absurd howner free
  | called free => exact absurd howner free
  | leaving free => exact absurd howner free
  | @inside c cmd _ _ _ _ _ _ _ _ holding =>
    rcases holding with ⟨rest, hguard, -⟩ | ⟨rfl, -⟩
    · exact ⟨c, cmd, _, _, rest, rfl, hguard⟩
    · exact ⟨c, _, R.failure, R.failure, [], rfl, .done⟩

/-! ## The stacks -/

/-- A thread is in its calls up to its depth. -/
def Stacked (s : Interrupted Tid κ α ρ) : Prop :=
  ∀ t d, (s.base.thread (t, d)).isSome = true ↔ d < s.depth t

theorem stacked_step (h : Stacked s) (hs : InterruptedStep R s e s') : Stacked s' := by
  intro t d
  cases hs with
  | @call b u c hbase =>
    cases hbase with
    | call hnone =>
      show ((s.base.goto (u, s.depth u) _) (t, d)).isSome = true ↔ d < Function.update s.depth u _ t
      by_cases ht : t = u
      · subst ht
        rw [Function.update_self]
        by_cases hd : d = s.depth t
        · subst hd
          rw [thread_goto_self]
          exact ⟨fun _ => Nat.lt_succ_self _, fun _ => rfl⟩
        · rw [thread_goto_other _ (by simp [hd]), h t d]
          omega
      · rw [thread_goto_other _ (by simp [ht]), Function.update_of_ne ht, h t d]
  | @go b e u j newest caller within hbase =>
    have hsome : ∀ {r : Option (κ × Cmd α ρ)} {a : Tid × Nat}, (s.base.thread a).isSome = true →
        r.isSome = true → ((s.base.goto a r (t, d)).isSome = true ↔ d < s.depth t) := by
      intro r a ha hr
      by_cases hk : (t, d) = a
      · rw [hk, thread_goto_self, ← h t d, hk]
        exact ⟨fun _ => ha, fun _ => hr⟩
      · rw [thread_goto_other _ hk]
        exact h t d
    cases hbase with
    | call => cases within
    | lock hthread => exact hsome (by rw [hthread]; rfl) rfl
    | write hthread => exact hsome (by rw [hthread]; rfl) rfl
    | fail hthread => exact hsome (by rw [hthread]; rfl) rfl
    | unlock hthread => exact hsome (by rw [hthread]; rfl) rfl
    | ret => cases within
  | @ret b u j v newest hbase =>
    cases hbase with
    | ret hthread =>
      show ((s.base.goto (u, j) none) (t, d)).isSome = true ↔ d < Function.update s.depth u j t
      by_cases ht : t = u
      · subst ht
        rw [Function.update_self]
        by_cases hd : d = j
        · subst hd
          rw [thread_goto_self]
          exact ⟨fun hno => (Bool.false_ne_true hno).elim, fun hlt => (Nat.lt_irrefl _ hlt).elim⟩
        · rw [thread_goto_other _ (by simp [hd]), h t d]
          omega
      · rw [thread_goto_other _ (by simp [ht]), Function.update_of_ne ht, h t d]

theorem stacked_run (h : (interruptedSystem R content).Run tr s) : Stacked s := by
  refine h.reachable.invariant (I := Stacked) (fun s hs t d => ?_) fun s e s' hi hs => stacked_step hi hs
  rw [show s = _ from hs]
  exact ⟨fun hno => (Bool.false_ne_true hno).elim, fun hlt => (Nat.not_lt_zero _ hlt).elim⟩

/-! ## A call that waits for its own thread -/

/-- The call `(t, j)` waits for the lock that the older call `(t, i)` holds. -/
structure StuckAt (s : Interrupted Tid κ α ρ) (t : Tid) (i j : Nat) : Prop where
  holds : s.base.owner = some (t, i)
  older : i < j
  newest : j < s.depth t
  waits : ∃ c next, s.base.thread (t, j) = some (c, .lock next)

def Stuck (s : Interrupted Tid κ α ρ) : Prop := ∃ t i j, StuckAt s t i j

/-- The lock stays where it is, and the file as it is. -/
theorem stuckAt_step (hrec : Recorded R content tr s.base) {t : Tid} {i j : Nat} (h : StuckAt s t i j)
    (hs : InterruptedStep R s e s') :
    StuckAt s' t i j ∧ s'.base.file = s.base.file ∧ ∀ a c, e ≠ .lock a c := by
  obtain ⟨holds, older, newest, c, next, waits⟩ := h
  -- a call that writes or releases the lock would be `(t, i)`, which is not the newest
  have hinside : ∀ {u : Tid} {d : Nat} {c : κ} {cmd : Cmd α ρ}, s.depth u = d + 1 →
      s.base.thread (u, d) = some (c, cmd) → (∀ next, cmd ≠ .lock next) → (∀ v, cmd ≠ .ret v) → False := by
    intro u d c cmd hnewest hthread hlock hret
    have hstage := hrec.stage (u, d)
    rw [hthread] at hstage
    have howner := (hstage.inside_of hlock hret).1
    rw [holds] at howner
    cases howner
    omega
  cases hs with
  | @call b u c' hbase =>
    cases hbase with
    | call hnone =>
      refine ⟨⟨holds, older, ?_, c, next, ?_⟩, rfl, fun _ _ he => by cases he⟩
      · show j < Function.update s.depth u _ t
        by_cases ht : t = u
        · subst ht
          rw [Function.update_self]
          omega
        · rw [Function.update_of_ne ht]
          exact newest
      · show s.base.goto (u, s.depth u) _ (t, j) = _
        rw [thread_goto_other _ (fun he => ?_), waits]
        cases he
        exact Nat.lt_irrefl _ newest
  | @go b e u d hnewest caller within hbase =>
    cases hbase with
    | call => cases within
    | lock hthread free =>
      rw [holds] at free
      cases free
    | write hthread =>
      cases caller
      exact (hinside hnewest hthread nofun nofun).elim
    | fail hthread =>
      cases caller
      exact (hinside hnewest hthread nofun nofun).elim
    | unlock hthread =>
      cases caller
      exact (hinside hnewest hthread nofun nofun).elim
    | ret => cases within
  | @ret b u d v hnewest hbase =>
    cases hbase with
    | ret hthread =>
      have hne : (t, j) ≠ (u, d) := by
        intro he
        rw [he, hthread] at waits
        cases waits
      refine ⟨⟨holds, older, ?_, c, next, ?_⟩, rfl, fun _ _ he => by cases he⟩
      · show j < Function.update s.depth u d t
        by_cases ht : t = u
        · subst ht
          rw [Function.update_self]
          have hjd : j ≠ d := fun he => hne (by rw [he])
          omega
        · rw [Function.update_of_ne ht]
          exact newest
      · show s.base.goto (u, d) none (t, j) = _
        rw [thread_goto_other _ hne, waits]

/-- A stuck file is stuck for ever, and nobody takes the lock again. -/
theorem stuck_forever (h : (interruptedSystem R content).Run tr s) (hstuck : Stuck s)
    (path : (interruptedSystem R content).Path s tr' s') :
    Stuck s' ∧ s'.base.file = s.base.file ∧ s'.base.owner = s.base.owner ∧ ∀ a c, .lock a c ∉ tr' := by
  obtain ⟨t, i, j, hat⟩ := hstuck
  suffices StuckAt s' t i j ∧ s'.base.file = s.base.file ∧ ∀ a c, .lock a c ∉ tr' from
    ⟨⟨t, i, j, this.1⟩, this.2.1, this.1.holds.trans hat.holds.symm, this.2.2⟩
  induction path with
  | nil => exact ⟨hat, rfl, fun _ _ => List.not_mem_nil⟩
  | @snoc u v tr' e path hs ih =>
    obtain ⟨hat', hfile, hlocks⟩ := ih
    obtain ⟨hat'', hfile', hlock⟩ := stuckAt_step (interrupted_recorded (h.path path)) hat' hs
    refine ⟨hat'', hfile'.trans hfile, fun a c hmem => ?_⟩
    rcases List.mem_append.mp hmem with hmem | hmem
    · exact hlocks a c hmem
    · exact hlock a c (List.mem_singleton.mp hmem).symm

/-! ## A lock that can be released again -/

/-- The newest call of a thread above the one that holds the lock, when it does not wait for
the lock, is about to return. -/
theorem newest_returns (hrec : Recorded R content tr s.base) (hstack : Stacked s) (hstuck : ¬ Stuck s)
    {t : Tid} {i d : Nat} (holds : s.base.owner = some (t, i)) (hid : i < d) (hnewest : s.depth t = d + 1) :
    ∃ c v, s.base.thread (t, d) = some (c, .ret v) := by
  have hsome : (s.base.thread (t, d)).isSome = true := (hstack t d).mpr (by omega)
  obtain ⟨⟨c, cmd⟩, hthread⟩ := Option.isSome_iff_exists.mp hsome
  have hne : s.base.owner ≠ some (t, d) := by
    rw [holds]
    intro he
    cases he
    exact Nat.lt_irrefl _ hid
  cases cmd with
  | ret v => exact ⟨c, v, hthread⟩
  | lock next => exact (hstuck ⟨t, i, d, holds, hid, by omega, c, next, hthread⟩).elim
  | write text onError next =>
    have hstage := hrec.stage (t, d)
    rw [hthread] at hstage
    exact (hne (hstage.inside_of nofun nofun).1).elim
  | unlock next =>
    have hstage := hrec.stage (t, d)
    rw [hthread] at hstage
    exact (hne (hstage.inside_of nofun nofun).1).elim

/-- The call that holds the lock, when it is the newest of its thread, can write on and release
the lock. -/
theorem release_of_newest {t : Tid} {i : Nat} (hnewest : s.depth t = i + 1) {c : κ} {cmd : Cmd α ρ}
    {failure value : ρ} {rest : List α} (hguard : Guarded failure value cmd rest)
    (hthread : s.base.thread (t, i) = some (c, cmd)) :
    ∃ tr' s', (interruptedSystem R content).Path s tr' s' ∧ s'.base.owner = none := by
  induction hguard generalizing s with
  | done =>
    exact ⟨_, _, .single (.go hnewest rfl rfl (.unlock hthread)), rfl⟩
  | @write text rest next hrest ih =>
    have hstep : InterruptedStep R s _ _ :=
      .go hnewest rfl rfl (.write hthread)
    obtain ⟨tr', s', path, hfree⟩ := ih (s := ⟨⟨s.base.owner, s.base.file ++ text,
      s.base.goto (t, i) (some (c, next))⟩, s.depth⟩) hnewest (thread_goto_self ..)
    exact ⟨_, s', (System.Path.single hstep).append path, hfree⟩

theorem release_of_not_stuck (h : (interruptedSystem R content).Run tr s) (hstuck : ¬ Stuck s) :
    ∃ tr' s', (interruptedSystem R content).Path s tr' s' ∧ s'.base.owner = none := by
  cases howner : s.base.owner with
  | none => exact ⟨[], s, .nil s, howner⟩
  | some a =>
    obtain ⟨t, i⟩ := a
    -- by the calls above the one that holds the lock
    induction hn : s.depth t using Nat.strongRecOn generalizing tr s with
    | _ n ih =>
      subst hn
      have hrec := interrupted_recorded h
      have hstack := stacked_run h
      obtain ⟨c, cmd, _, _, rest, hthread, hguard⟩ := hrec.holder howner
      have hlt : i < s.depth t := (hstack t i).mp (by rw [hthread]; rfl)
      by_cases hnewest : s.depth t = i + 1
      · exact release_of_newest hnewest hguard hthread
      · -- the newest call returns
        obtain ⟨d, hd⟩ : ∃ d, s.depth t = d + 1 := ⟨s.depth t - 1, by omega⟩
        obtain ⟨c', v, hret⟩ := newest_returns hrec hstack hstuck howner (by omega : i < d) hd
        have hstep : InterruptedStep R s _ _ := .ret hd (.ret hret)
        have hdepth : Function.update s.depth t d t = d := Function.update_self ..
        have hstuck' : ¬ Stuck (Interrupted.mk ⟨s.base.owner, s.base.file, s.base.goto (t, d) none⟩
            (Function.update s.depth t d)) := by
          intro hat
          obtain ⟨u, i', j, holds, older, newest, c'', next, waits⟩ := hat
          have hui : (u, i') = (t, i) := Option.some.inj (holds.symm.trans howner)
          cases hui
          change j < Function.update s.depth t d t at newest
          rw [hdepth] at newest
          have hne : (t, j) ≠ (t, d) := by
            intro he
            cases he
            exact Nat.lt_irrefl _ newest
          change s.base.goto (t, d) none (t, j) = _ at waits
          rw [thread_goto_other _ hne] at waits
          exact hstuck ⟨t, i, j, howner, older, by omega, c'', next, waits⟩
        obtain ⟨tr', s', path, hfree⟩ := ih d (by omega) (h.snoc hstep) hstuck' howner hdepth
        exact ⟨_, s', (System.Path.single hstep).append path, hfree⟩

/-- The lock can be released again exactly if no call waits for an older one of its thread. -/
theorem release_iff_not_stuck (h : (interruptedSystem R content).Run tr s) :
    (∃ tr' s', (interruptedSystem R content).Path s tr' s' ∧ s'.base.owner = none) ↔ ¬ Stuck s := by
  refine ⟨fun hfree hstuck => ?_, release_of_not_stuck h⟩
  obtain ⟨tr', s', path, hfree⟩ := hfree
  obtain ⟨-, -, howner, -⟩ := stuck_forever h hstuck path
  obtain ⟨t, i, j, hat⟩ := hstuck
  rw [hfree, hat.holds] at howner
  cases howner

/-! ## Interruptions outside the lock -/

/-- No call starts inside a call that holds the lock. -/
def Outside (s : Interrupted Tid κ α ρ) (e : Act (Tid × Nat) κ α ρ) : Prop :=
  ∀ t d c, e = .call (t, d) c → ∀ i, s.base.owner ≠ some (t, i)

/-- The call that holds the lock is the newest of its thread. -/
def OwnerNewest (s : Interrupted Tid κ α ρ) : Prop :=
  ∀ t i, s.base.owner = some (t, i) → s.depth t = i + 1

theorem ownerNewest_step (hrec : Recorded R content tr s.base) (hi : OwnerNewest s)
    (hs : InterruptedStep R s e s') (hout : Outside s e) : OwnerNewest s' := by
  intro t i holds
  cases hs with
  | @call b u c hbase =>
    cases hbase with
    | call hnone =>
      have htu : t ≠ u := by
        intro he
        subst he
        exact hout t _ c rfl i holds
      show Function.update s.depth u _ t = i + 1
      rw [Function.update_of_ne htu]
      exact hi t i holds
  | @go b e u d newest caller within hbase =>
    cases hbase with
    | call => cases within
    | lock hthread free =>
      cases caller
      cases holds
      exact newest
    | write => exact hi t i holds
    | fail => exact hi t i holds
    | unlock => cases holds
    | ret => cases within
  | @ret b u d v newest hbase =>
    cases hbase with
    | ret hthread =>
      have howner : s.base.owner = some (t, i) := holds
      have htu : t ≠ u := by
        intro he
        subst he
        have hid := hi t i howner
        obtain rfl : i = d := by omega
        obtain ⟨c, cmd, _, _, rest, hholder, hguard⟩ := hrec.holder howner
        rw [hthread] at hholder
        cases hholder
        cases hguard
      show Function.update s.depth u d t = i + 1
      rw [Function.update_of_ne htu]
      exact hi t i howner

/-- Interruptions outside the lock leave it usable. -/
theorem not_stuck_of_outside (h : ((interruptedSystem R content).restrict Outside).Run tr s) :
    ¬ Stuck s := by
  have hnewest : OwnerNewest s := by
    refine h.invariant (I := fun _ s => OwnerNewest s) ?_ ?_
    · intro s hs t i holds
      rw [show s = _ from hs] at holds
      cases holds
    · intro tr s e s' hrun hi hs
      exact ownerNewest_step (interrupted_recorded hrun.of_restrict) hi hs.1 hs.2
  intro hstuck
  obtain ⟨t, i, j, hat⟩ := hstuck
  have hdepth := hnewest t i hat.holds
  have holder := hat.older
  have hj := hat.newest
  omega

/-- A call that interrupts the holder of the lock and wants the lock itself. -/
theorem stuck_of_call (h : (interruptedSystem R content).Run tr s) {t : Tid} {d i : Nat} {c : κ}
    {body : Cmd α ρ} (howner : s.base.owner = some (t, i)) (hprogram : R.program c = .lock body)
    (hs : InterruptedStep R s (.call (t, d) c) s') : Stuck s' := by
  have hlt : i < s.depth t := by
    obtain ⟨c, cmd, _, _, rest, hthread, -⟩ := (interrupted_recorded h).holder howner
    exact (stacked_run h t i).mp (by rw [hthread]; rfl)
  cases hs with
  | @call b _ _ hbase =>
    cases hbase with
    | call hnone =>
      refine ⟨t, i, s.depth t, howner, hlt, ?_, c, body, ?_⟩
      · show s.depth t < Function.update s.depth t _ t
        rw [Function.update_self]
        exact Nat.lt_succ_self _
      · show s.base.goto (t, s.depth t) _ (t, s.depth t) = _
        rw [thread_goto_self, hprogram]
  | go _ _ within => cases within

end

end VlanTagger.Lib
