import Mathlib.Data.List.Induction
import Mathlib.Logic.Function.Basic
import VlanTagger.Lib.Transition

/-!
# Records written under one lock

Threads run programs that write to one file, and a write may fail after any part of its
text. A program that takes the lock, writes and releases the lock on every path
leaves one contiguous piece in the file, and the pieces stand in the order in which the
lock was taken. `Guarded` is what such a program looks like behind its lock.
-/
namespace VlanTagger.Lib

/-- The rest of a program. -/
inductive Cmd (α ρ : Type*)
  | lock (next : Cmd α ρ)
  | write (text : List α) (onError next : Cmd α ρ)
  | unlock (next : Cmd α ρ)
  | ret (value : ρ)

/-- What is still to be written before the lock is released and `value` returned; on an error
nothing more is written and `failure` is returned. -/
inductive Guarded {α ρ : Type*} (failure value : ρ) : Cmd α ρ → List α → Prop
  | done : Guarded failure value (.unlock (.ret value)) []
  | write {text rest : List α} {next : Cmd α ρ} (h : Guarded failure value next rest) :
      Guarded failure value (.write text (.unlock (.ret failure)) next) (text ++ rest)

/-- A program that meets no error: what it writes and what it returns. -/
def Cmd.run {α ρ : Type*} : Cmd α ρ → List α × ρ
  | .lock next => next.run
  | .write text _ next => (text ++ next.run.1, next.run.2)
  | .unlock next => next.run
  | .ret value => ([], value)

theorem Guarded.run {α ρ : Type*} {failure value : ρ} {cmd : Cmd α ρ} {rest : List α}
    (h : Guarded failure value cmd rest) : cmd.run = (rest, value) := by
  induction h with
  | done => rfl
  | write _ ih => rw [Cmd.run, ih]

/-- Each call runs a program; `record` is what it is meant to write. -/
structure Recorder (κ α ρ : Type*) where
  program : κ → Cmd α ρ
  record : κ → List α
  value : κ → ρ
  failure : ρ
  guarded : ∀ c, (∃ v, program c = .ret v) ∨
    ∃ body, program c = .lock body ∧ Guarded failure (value c) body (record c)

structure Shared (Tid κ α ρ : Type*) where
  owner : Option Tid
  file : List α
  /-- The call that a thread is in, and the rest of its program. -/
  thread : Tid → Option (κ × Cmd α ρ)

/-- What a thread does; a write is labelled with what it appended. -/
inductive Act (Tid κ α ρ : Type*)
  | call (t : Tid) (c : κ)
  | lock (t : Tid) (c : κ)
  | write (t : Tid) (text : List α)
  | unlock (t : Tid)
  | ret (t : Tid) (value : ρ)

section

variable {Tid κ α ρ : Type*} [DecidableEq Tid]

/-- The threads when `t` has gone on to `rest`. -/
def Shared.goto (s : Shared Tid κ α ρ) (t : Tid) (rest : Option (κ × Cmd α ρ)) :
    Tid → Option (κ × Cmd α ρ) := Function.update s.thread t rest

inductive RecorderStep (R : Recorder κ α ρ) :
    Shared Tid κ α ρ → Act Tid κ α ρ → Shared Tid κ α ρ → Prop
  | call {s t c} (h : s.thread t = none) :
      RecorderStep R s (.call t c) ⟨s.owner, s.file, s.goto t (some (c, R.program c))⟩
  | lock {s t c next} (h : s.thread t = some (c, .lock next)) (free : s.owner = none) :
      RecorderStep R s (.lock t c) ⟨some t, s.file, s.goto t (some (c, next))⟩
  | write {s t c text onError next} (h : s.thread t = some (c, .write text onError next)) :
      RecorderStep R s (.write t text) ⟨s.owner, s.file ++ text, s.goto t (some (c, next))⟩
  | fail {s t c text onError next written} (h : s.thread t = some (c, .write text onError next))
      (part : written <+: text) :
      RecorderStep R s (.write t written) ⟨s.owner, s.file ++ written, s.goto t (some (c, onError))⟩
  | unlock {s t c next} (h : s.thread t = some (c, .unlock next)) :
      RecorderStep R s (.unlock t) ⟨none, s.file, s.goto t (some (c, next))⟩
  | ret {s t c v} (h : s.thread t = some (c, .ret v)) :
      RecorderStep R s (.ret t v) ⟨s.owner, s.file, s.goto t none⟩

/-- Any threads, any interleaving, on a file that holds `content` at first. -/
def recorderSystem (R : Recorder κ α ρ) (content : List α) : System (Shared Tid κ α ρ) (Act Tid κ α ρ) where
  init := fun s => s = ⟨none, content, fun _ => none⟩
  step := RecorderStep R

/-! ## The pieces of the file -/

/-- What one call wrote since it took the lock. -/
structure Piece (Tid κ α ρ : Type*) where
  thread : Tid
  call : κ
  text : List α
  /-- The lock is released. -/
  closed : Bool
  /-- What the call has returned. -/
  value : Option ρ

def Piece.append (w : List α) (p : Piece Tid κ α ρ) : Piece Tid κ α ρ := { p with text := p.text ++ w }

def Piece.close (p : Piece Tid κ α ρ) : Piece Tid κ α ρ := { p with closed := true }

def Piece.finish (v : ρ) (p : Piece Tid κ α ρ) : Piece Tid κ α ρ :=
  if p.value.isSome then p else { p with value := some v }

/-- `f` on the newest piece of a thread. -/
def newest (t : Tid) (f : Piece Tid κ α ρ → Piece Tid κ α ρ) :
    List (Piece Tid κ α ρ) → List (Piece Tid κ α ρ)
  | [] => []
  | p :: ps => if p.thread = t then f p :: ps else p :: newest t f ps

/-- The pieces behind an action, the newest first. -/
def note (ps : List (Piece Tid κ α ρ)) : Act Tid κ α ρ → List (Piece Tid κ α ρ)
  | .call _ _ => ps
  | .lock t c => ⟨t, c, [], false, none⟩ :: ps
  | .write t w => newest t (Piece.append w) ps
  | .unlock t => newest t Piece.close ps
  | .ret t v => newest t (Piece.finish v) ps

/-- The pieces that a run has written, the newest first. -/
def piecesOf (tr : List (Act Tid κ α ρ)) : List (Piece Tid κ α ρ) := tr.foldl note []

/-- The thread has taken the lock in a call that has not returned. -/
def between (t : Tid) (tr : List (Act Tid κ α ρ)) : Bool :=
  tr.foldl (fun b e => match e with
    | .lock t' _ => if t' = t then true else b
    | .ret t' _ => if t' = t then false else b
    | _ => b) false

theorem piecesOf_concat (tr : List (Act Tid κ α ρ)) (e : Act Tid κ α ρ) :
    piecesOf (tr ++ [e]) = note (piecesOf tr) e := List.foldl_concat ..

variable {t u : Tid} {f : Piece Tid κ α ρ → Piece Tid κ α ρ} {p q : Piece Tid κ α ρ}
  {ps rest : List (Piece Tid κ α ρ)}

/-- The pieces of one thread. -/
def own (t : Tid) (ps : List (Piece Tid κ α ρ)) : List (Piece Tid κ α ρ) :=
  ps.filter fun p => p.thread = t

theorem newest_head (h : p.thread = t) : newest t f (p :: ps) = f p :: ps := if_pos h

theorem own_cons_self (h : p.thread = t) : own t (p :: ps) = p :: own t ps :=
  List.filter_cons_of_pos (decide_eq_true h)

theorem own_cons_other (h : p.thread ≠ t) : own t (p :: ps) = own t ps :=
  List.filter_cons_of_neg (by simpa using h)

theorem mem_own (h : p ∈ ps) : p ∈ own p.thread ps := List.mem_filter.mpr ⟨h, decide_eq_true rfl⟩

theorem own_newest_self (hf : ∀ p, (f p).thread = p.thread) (h : own t ps = p :: rest) :
    own t (newest t f ps) = f p :: rest := by
  induction ps with
  | nil => cases h
  | cons q ps ih =>
    by_cases hq : q.thread = t
    · rw [own_cons_self hq] at h
      obtain ⟨hqp, hrest⟩ := List.cons.inj h
      rw [newest_head hq, own_cons_self ((hf q).trans hq), hqp, hrest]
    · rw [own_cons_other hq] at h
      rw [newest, if_neg hq, own_cons_other hq, ih h]

theorem own_newest_other (hf : ∀ p, (f p).thread = p.thread) (h : u ≠ t) :
    own u (newest t f ps) = own u ps := by
  induction ps with
  | nil => rfl
  | cons q ps ih =>
    by_cases hq : q.thread = t
    · have hne : q.thread ≠ u := fun hu => h (hu.symm.trans hq)
      have hne' : (f q).thread ≠ u := by
        rw [hf q]
        exact hne
      rw [newest_head hq, own_cons_other hne', own_cons_other hne]
    · rw [newest, if_neg hq]
      by_cases hu : q.thread = u
      · rw [own_cons_self hu, own_cons_self hu, ih]
      · rw [own_cons_other hu, own_cons_other hu, ih]

theorem newest_eq_self (h : ∀ p ∈ own t ps, f p = p) : newest t f ps = ps := by
  induction ps with
  | nil => rfl
  | cons q ps ih =>
    by_cases hq : q.thread = t
    · rw [own_cons_self hq] at h
      rw [newest_head hq, h q List.mem_cons_self]
    · rw [own_cons_other hq] at h
      rw [newest, if_neg hq, ih h]

theorem mem_newest (h : own t ps = p :: rest) (hq : q ∈ newest t f ps) : q ∈ ps ∨ q = f p := by
  induction ps with
  | nil => cases h
  | cons r ps ih =>
    by_cases hr : r.thread = t
    · rw [own_cons_self hr] at h
      cases h
      rw [newest_head hr] at hq
      rcases List.mem_cons.mp hq with rfl | hq
      · exact .inr rfl
      · exact .inl (List.mem_cons_of_mem _ hq)
    · rw [own_cons_other hr] at h
      rw [newest, if_neg hr] at hq
      rcases List.mem_cons.mp hq with rfl | hq
      · exact .inl List.mem_cons_self
      · exact (ih h hq).imp_left (List.mem_cons_of_mem _)

theorem map_newest {β : Type*} {g : Piece Tid κ α ρ → β} (h : ∀ p, g (f p) = g p) :
    (newest t f ps).map g = ps.map g := by
  induction ps with
  | nil => rfl
  | cons q ps ih =>
    unfold newest
    split
    · rw [List.map_cons, List.map_cons, h]
    · rw [List.map_cons, List.map_cons, ih]

/-! ## The invariant -/

variable {R : Recorder κ α ρ} {content : List α} {s s' : Shared Tid κ α ρ}
  {tr : List (Act Tid κ α ρ)} {e : Act Tid κ α ρ}

/-- What a call has returned fits what it has written. -/
def Recorder.Settled (R : Recorder κ α ρ) (c : κ) (text : List α) (v : ρ) : Prop :=
  (v = R.value c ∧ text = R.record c) ∨ (v = R.failure ∧ text <+: R.record c)

/-- With the lock in hand: the rest of the program completes the record, or gives up. -/
def Recorder.Holding (R : Recorder κ α ρ) (c : κ) (text : List α) (cmd : Cmd α ρ) : Prop :=
  (∃ rest, Guarded R.failure (R.value c) cmd rest ∧ text ++ rest = R.record c) ∨
    (cmd = .unlock (.ret R.failure) ∧ text <+: R.record c)

def Returned (ps : List (Piece Tid κ α ρ)) : Prop := ∀ p ∈ ps, p.closed = true ∧ p.value.isSome = true

/-- Where a thread stands, and how its pieces look there. -/
inductive Stage (R : Recorder κ α ρ) (t : Tid) (owner : Option Tid) (ps : List (Piece Tid κ α ρ)) :
    Option (κ × Cmd α ρ) → Prop
  | idle (free : owner ≠ some t) (returned : Returned ps) : Stage R t owner ps none
  | called {c cmd} (free : owner ≠ some t) (returned : Returned ps) (start : cmd = R.program c) :
      Stage R t owner ps (some (c, cmd))
  | inside {c cmd p rest} (holds : owner = some t) (pieces : ps = p :: rest) (returned : Returned rest)
      (call : p.call = c) (isOpen : p.closed = false) (pending : p.value = none)
      (holding : R.Holding c p.text cmd) : Stage R t owner ps (some (c, cmd))
  | leaving {c v p rest} (free : owner ≠ some t) (pieces : ps = p :: rest) (returned : Returned rest)
      (call : p.call = c) (closed : p.closed = true) (pending : p.value = none)
      (settled : R.Settled c p.text v) : Stage R t owner ps (some (c, .ret v))

/-- The invariant of a run. -/
structure Recorded (R : Recorder κ α ρ) (content : List α) (tr : List (Act Tid κ α ρ))
    (s : Shared Tid κ α ρ) : Prop where
  file : s.file = content ++ ((piecesOf tr).reverse.map Piece.text).flatten
  stage : ∀ t, Stage R t s.owner (own t (piecesOf tr)) (s.thread t)
  head : ∀ t, s.owner = some t → between t tr = true ∧
    ∃ p rest, piecesOf tr = p :: rest ∧ p.thread = t
  settled : ∀ p ∈ piecesOf tr, ∀ v, p.value = some v → R.Settled p.call p.text v

theorem between_concat (t : Tid) (tr : List (Act Tid κ α ρ)) (e : Act Tid κ α ρ) :
    between t (tr ++ [e]) = match e with
      | .lock t' _ => if t' = t then true else between t tr
      | .ret t' _ => if t' = t then false else between t tr
      | _ => between t tr := List.foldl_concat ..

theorem thread_goto_self (s : Shared Tid κ α ρ) (t : Tid) (r : Option (κ × Cmd α ρ)) :
    s.goto t r t = r := Function.update_self ..

theorem thread_goto_other (s : Shared Tid κ α ρ) (h : u ≠ t) (r : Option (κ × Cmd α ρ)) :
    s.goto t r u = s.thread u := Function.update_of_ne h ..

omit [DecidableEq Tid] in
/-- The stage of a thread does not depend on who else holds the lock. -/
theorem Stage.of_owner {owner owner' : Option Tid} {r : Option (κ × Cmd α ρ)}
    (h : Stage R t owner ps r) (howner : owner = some t ↔ owner' = some t) : Stage R t owner' ps r := by
  cases h with
  | idle free returned => exact .idle (fun ho => free (howner.mpr ho)) returned
  | called free returned start => exact .called (fun ho => free (howner.mpr ho)) returned start
  | inside holds pieces returned call isOpen pending holding =>
    exact .inside (howner.mp holds) pieces returned call isOpen pending holding
  | leaving free pieces returned call closed pending settled =>
    exact .leaving (fun ho => free (howner.mpr ho)) pieces returned call closed pending settled

omit [DecidableEq Tid] in
/-- A thread at a write or at the release of the lock is behind its `lock`. -/
theorem Stage.inside_of {owner : Option Tid} {c : κ} {cmd : Cmd α ρ}
    (h : Stage R t owner ps (some (c, cmd))) (hlock : ∀ next, cmd ≠ .lock next) (hret : ∀ v, cmd ≠ .ret v) :
    owner = some t ∧ ∃ p rest, ps = p :: rest ∧ Returned rest ∧ p.call = c ∧ p.closed = false ∧
      p.value = none ∧ R.Holding c p.text cmd := by
  cases h with
  | called free returned start =>
    rcases R.guarded c with ⟨v, hv⟩ | ⟨body, hbody, -⟩
    · exact absurd (start.trans hv) (hret v)
    · exact absurd (start.trans hbody) (hlock body)
  | inside holds pieces returned call isOpen pending holding =>
    exact ⟨holds, _, _, pieces, returned, call, isOpen, pending, holding⟩
  | leaving => exact absurd rfl (hret _)

/-- The newest piece of all is the one of the thread that holds the lock. -/
theorem Recorded.head_own (h : Recorded R content tr s) (howner : s.owner = some t)
    (hown : own t (piecesOf tr) = p :: rest) :
    p.thread = t ∧ ∃ older, piecesOf tr = p :: older := by
  obtain ⟨-, q, older, hpieces, hq⟩ := h.head t howner
  rw [hpieces, own_cons_self hq] at hown
  obtain ⟨rfl, -⟩ := List.cons.inj hown
  exact ⟨hq, older, hpieces⟩

/-- Only the thread that makes a step changes its stage. -/
theorem Recorded.stages (h : Recorded R content tr s) {r : Option (κ × Cmd α ρ)} {owner' : Option Tid}
    {ps : List (Piece Tid κ α ρ)} (hself : Stage R t owner' (own t ps) r)
    (hown : ∀ u, u ≠ t → own u ps = own u (piecesOf tr))
    (howner : ∀ u, u ≠ t → (s.owner = some u ↔ owner' = some u)) (u : Tid) :
    Stage R u owner' (own u ps) (s.goto t r u) := by
  by_cases hut : u = t
  · subst hut
    rw [thread_goto_self]
    exact hself
  · rw [thread_goto_other s hut, hown u hut]
    exact (h.stage u).of_owner (howner u hut)

theorem Recorded.call (h : Recorded R content tr s) {c : κ} (hthread : s.thread t = none) :
    Recorded R content (tr ++ [.call t c]) ⟨s.owner, s.file, s.goto t (some (c, R.program c))⟩ := by
  have hpieces : piecesOf (tr ++ [.call t c]) = piecesOf tr := piecesOf_concat tr _
  have hstage := h.stage t
  rw [hthread] at hstage
  have hself : Stage R t s.owner (own t (piecesOf tr)) (some (c, R.program c)) := by
    cases hstage with
    | idle free returned => exact .called free returned rfl
  refine ⟨?_, ?_, fun u hu => ?_, ?_⟩
  · rw [hpieces]
    exact h.file
  · rw [hpieces]
    exact h.stages hself (fun _ _ => rfl) fun _ _ => Iff.rfl
  · rw [hpieces, between_concat]
    exact h.head u hu
  · rw [hpieces]
    exact h.settled

theorem Recorded.lock (h : Recorded R content tr s) {c : κ} {next : Cmd α ρ}
    (hthread : s.thread t = some (c, .lock next)) (free : s.owner = none) :
    Recorded R content (tr ++ [.lock t c]) ⟨some t, s.file, s.goto t (some (c, next))⟩ := by
  have hpieces : piecesOf (tr ++ [.lock t c]) = ⟨t, c, [], false, none⟩ :: piecesOf tr := piecesOf_concat tr _
  have hown : own t (⟨t, c, [], false, none⟩ :: piecesOf tr) = _ := own_cons_self rfl
  have hstage := h.stage t
  rw [hthread] at hstage
  have hself : Stage R t (some t) (own t (⟨t, c, [], false, none⟩ :: piecesOf tr)) (some (c, next)) := by
    rw [hown]
    cases hstage with
    | called _ returned start =>
      rcases R.guarded c with ⟨v, hv⟩ | ⟨body, hbody, hguard⟩
      · cases start.trans hv
      · cases start.trans hbody
        exact .inside rfl rfl returned rfl rfl rfl (.inl ⟨_, hguard, rfl⟩)
    | inside holds =>
      rw [free] at holds
      cases holds
  refine ⟨?_, ?_, fun u hu => ?_, ?_⟩
  · rw [hpieces, List.reverse_cons, List.map_append, List.flatten_append, ← List.append_assoc, ← h.file]
    exact (List.append_nil s.file).symm
  · rw [hpieces]
    refine h.stages hself (fun u hu => own_cons_other (Ne.symm hu)) fun u hu => ?_
    rw [free]
    exact ⟨nofun, fun h => absurd (Option.some.inj h).symm hu⟩
  · cases hu
    exact ⟨by rw [between_concat]; exact if_pos rfl, _, _, hpieces, rfl⟩
  · rw [hpieces]
    intro p hp v hv
    rcases List.mem_cons.mp hp with rfl | hp
    · cases hv
    · exact h.settled p hp v hv

/-- Something is appended with the lock in hand. -/
theorem Recorded.append (h : Recorded R content tr s) {c : κ} {cmd cmd' : Cmd α ρ} {w : List α}
    (hthread : s.thread t = some (c, cmd)) (hlock : ∀ next, cmd ≠ .lock next) (hret : ∀ v, cmd ≠ .ret v)
    (hnext : ∀ text, R.Holding c text cmd → R.Holding c (text ++ w) cmd') :
    Recorded R content (tr ++ [.write t w]) ⟨s.owner, s.file ++ w, s.goto t (some (c, cmd'))⟩ := by
  have hstage := h.stage t
  rw [hthread] at hstage
  obtain ⟨holds, p, rest, hown, returned, hcall, hopen, hpending, hholding⟩ := hstage.inside_of hlock hret
  obtain ⟨hp, older, hps⟩ := h.head_own holds hown
  have hnote : piecesOf (tr ++ [.write t w]) = newest t (Piece.append w) (piecesOf tr) := piecesOf_concat tr _
  have hpieces : piecesOf (tr ++ [.write t w]) = p.append w :: older := by rw [hnote, hps, newest_head hp]
  have hself : Stage R t s.owner (own t (newest t (Piece.append w) (piecesOf tr))) (some (c, cmd')) := by
    rw [own_newest_self (f := Piece.append w) (fun _ => rfl) hown]
    exact .inside holds rfl returned hcall hopen hpending (hnext _ hholding)
  refine ⟨?_, ?_, fun u hu => ?_, ?_⟩
  · have hfile := h.file
    rw [hps] at hfile
    rw [hpieces]
    simp only [hfile, List.reverse_cons, List.map_append, List.flatten_append, List.append_assoc]
    simp [Piece.append]
  · rw [hnote]
    exact h.stages hself (fun u hu => own_newest_other (f := Piece.append w) (fun _ => rfl) hu)
      fun _ _ => Iff.rfl
  · rw [between_concat, hpieces]
    refine ⟨(h.head u hu).1, _, _, rfl, ?_⟩
    rw [show s.owner = some u from hu] at holds
    rw [Option.some.inj holds]
    exact hp
  · rw [hpieces]
    intro q hq v hv
    rcases List.mem_cons.mp hq with rfl | hq
    · rw [Piece.append, hpending] at hv
      cases hv
    · exact h.settled q (by rw [hps]; exact List.mem_cons_of_mem _ hq) v hv

theorem Recorded.unlock (h : Recorded R content tr s) {c : κ} {next : Cmd α ρ}
    (hthread : s.thread t = some (c, .unlock next)) :
    Recorded R content (tr ++ [.unlock t]) ⟨none, s.file, s.goto t (some (c, next))⟩ := by
  have hstage := h.stage t
  rw [hthread] at hstage
  obtain ⟨holds, p, rest, hown, returned, hcall, hopen, hpending, hholding⟩ := hstage.inside_of nofun nofun
  obtain ⟨v, rfl, hsettled⟩ : ∃ v, next = .ret v ∧ R.Settled c p.text v := by
    rcases hholding with ⟨rest, hguard, htext⟩ | ⟨hcmd, htext⟩
    · cases hguard
      rw [List.append_nil] at htext
      exact ⟨_, rfl, .inl ⟨rfl, htext⟩⟩
    · cases hcmd
      exact ⟨_, rfl, .inr ⟨rfl, htext⟩⟩
  have hpieces : piecesOf (tr ++ [.unlock t]) = newest t Piece.close (piecesOf tr) := piecesOf_concat tr _
  have hself : Stage R t none (own t (newest t Piece.close (piecesOf tr))) (some (c, .ret v)) := by
    rw [own_newest_self (f := Piece.close) (fun _ => rfl) hown]
    exact .leaving nofun rfl returned hcall rfl hpending hsettled
  refine ⟨?_, ?_, nofun, ?_⟩
  · rw [hpieces, List.map_reverse, map_newest (f := Piece.close) (fun _ => rfl), ← List.map_reverse]
    exact h.file
  · rw [hpieces]
    refine h.stages hself (fun u hu => own_newest_other (f := Piece.close) (fun _ => rfl) hu) fun u hu => ?_
    rw [holds]
    exact ⟨fun h => absurd (Option.some.inj h).symm hu, nofun⟩
  · rw [hpieces]
    intro q hq w hw
    rcases mem_newest hown hq with hq | rfl
    · exact h.settled q hq w hw
    · rw [Piece.close, hpending] at hw
      cases hw

omit [DecidableEq Tid] in
theorem finish_of_returned {v : ρ} (h : p.value.isSome = true) : p.finish v = p := if_pos h

omit [DecidableEq Tid] in
theorem finish_of_pending {v : ρ} (h : p.value = none) : p.finish v = { p with value := some v } :=
  if_neg (by rw [h]; exact Bool.false_ne_true)

omit [DecidableEq Tid] in
theorem thread_finish {v : ρ} : ∀ p : Piece Tid κ α ρ, (p.finish v).thread = p.thread := by
  intro p
  unfold Piece.finish
  split <;> rfl

omit [DecidableEq Tid] in
theorem text_finish {v : ρ} : ∀ p : Piece Tid κ α ρ, (p.finish v).text = p.text := by
  intro p
  unfold Piece.finish
  split <;> rfl

theorem Recorded.ret (h : Recorded R content tr s) {c : κ} {v : ρ} (hthread : s.thread t = some (c, .ret v)) :
    Recorded R content (tr ++ [.ret t v]) ⟨s.owner, s.file, s.goto t none⟩ := by
  have hpieces : piecesOf (tr ++ [.ret t v]) = newest t (Piece.finish v) (piecesOf tr) := piecesOf_concat tr _
  have hstage := h.stage t
  rw [hthread] at hstage
  -- the call returned without the lock, or settles its piece
  have hcase : s.owner ≠ some t ∧ Returned (own t (newest t (Piece.finish v) (piecesOf tr))) ∧
      ∀ q ∈ newest t (Piece.finish v) (piecesOf tr), ∀ w, q.value = some w → R.Settled q.call q.text w := by
    cases hstage with
    | called free returned _ =>
      rw [newest_eq_self fun p hp => finish_of_returned (returned p hp).2]
      exact ⟨free, returned, h.settled⟩
    | inside _ _ _ _ _ _ holding =>
      rcases holding with ⟨rest, hguard, -⟩ | ⟨hcmd, -⟩
      · cases hguard
      · cases hcmd
    | leaving free pieces returned call closed pending settled =>
      refine ⟨free, ?_, fun q hq w hw => ?_⟩
      · rw [own_newest_self thread_finish pieces, finish_of_pending pending]
        intro q hq
        rcases List.mem_cons.mp hq with rfl | hq
        · exact ⟨closed, rfl⟩
        · exact returned q hq
      · rcases mem_newest pieces hq with hq | rfl
        · exact h.settled q hq w hw
        · rw [finish_of_pending pending] at hw ⊢
          cases hw
          rw [call]
          exact settled
  obtain ⟨free, returned, settled⟩ := hcase
  refine ⟨?_, ?_, fun u hu => ?_, ?_⟩
  · rw [hpieces, List.map_reverse, map_newest text_finish, ← List.map_reverse]
    exact h.file
  · rw [hpieces]
    exact h.stages (.idle free returned) (fun u hu => own_newest_other thread_finish hu) fun _ _ => Iff.rfl
  · obtain ⟨hbetween, p, older, hps, hp⟩ := h.head u hu
    have hut : t ≠ u := by
      rintro rfl
      exact free hu
    rw [hpieces, between_concat, hps]
    refine ⟨by simpa only [if_neg hut] using hbetween, p, newest t (Piece.finish v) older, ?_, hp⟩
    exact if_neg fun hpt => hut (hpt.symm.trans hp)
  · rw [hpieces]
    exact settled

theorem recorded_step (h : Recorded R content tr s) (hstep : RecorderStep R s e s') :
    Recorded R content (tr ++ [e]) s' := by
  cases hstep with
  | call hthread => exact h.call hthread
  | lock hthread free => exact h.lock hthread free
  | write hthread =>
    refine h.append hthread nofun nofun fun text hholding => ?_
    rcases hholding with ⟨rest, hguard, htext⟩ | ⟨hcmd, -⟩
    · cases hguard with
      | write hrest => exact .inl ⟨_, hrest, by rw [List.append_assoc, htext]⟩
    · cases hcmd
  | fail hthread part =>
    refine h.append hthread nofun nofun fun text hholding => ?_
    rcases hholding with ⟨rest, hguard, htext⟩ | ⟨hcmd, -⟩
    · cases hguard with
      | write hrest =>
        refine .inr ⟨rfl, ?_⟩
        rw [← htext]
        exact (List.prefix_append_right_inj text).mpr (part.trans (List.prefix_append _ _))
    · cases hcmd
  | unlock hthread => exact h.unlock hthread
  | ret hthread => exact h.ret hthread

theorem recorded_run (h : (recorderSystem R content).Run tr s) : Recorded R content tr s := by
  refine h.invariant (fun s hinit => ?_) fun tr s e s' _ hrec hstep => recorded_step hrec hstep
  subst hinit
  refine ⟨(List.append_nil content).symm, fun t => .idle nofun ?_, nofun, ?_⟩
  · intro p hp
    cases hp
  · intro p hp
    cases hp

/-! ## What the file holds -/

/-- Who took the lock, in which call, in order. -/
def lockings (tr : List (Act Tid κ α ρ)) : List (Tid × κ) :=
  tr.filterMap fun e => match e with
    | .lock t c => some (t, c)
    | _ => none

theorem lockings_eq (tr : List (Act Tid κ α ρ)) :
    (piecesOf tr).reverse.map (fun p => (p.thread, p.call)) = lockings tr := by
  have hfinish (v : ρ) (p : Piece Tid κ α ρ) : ((p.finish v).thread, (p.finish v).call) = (p.thread, p.call) := by
    unfold Piece.finish
    split <;> rfl
  induction tr using List.reverseRecOn with
  | nil => rfl
  | append_singleton tr e ih =>
    rw [piecesOf_concat, lockings, List.filterMap_append, ← lockings, ← ih, List.map_reverse, List.map_reverse]
    cases e with
    | call t c => simp [note]
    | lock t c => simp [note]
    | write t w =>
      rw [note, map_newest (f := Piece.append w) fun _ => rfl]
      simp
    | unlock t =>
      rw [note, map_newest (f := Piece.close) fun _ => rfl]
      simp
    | ret t v =>
      rw [note, map_newest (hfinish v)]
      simp

/-- Only the newest piece can be open, and then its thread has the lock. -/
theorem Recorded.closed_of_older (h : Recorded R content tr s) {older : List (Piece Tid κ α ρ)}
    (hpieces : piecesOf tr = p :: older) (hq : q ∈ older) : q.closed = true := by
  have hmem : q ∈ own q.thread (piecesOf tr) := mem_own (by rw [hpieces]; exact List.mem_cons_of_mem _ hq)
  have hstage := h.stage q.thread
  generalize s.thread q.thread = r at hstage
  cases hstage with
  | idle _ returned => exact (returned q hmem).1
  | called _ returned _ => exact (returned q hmem).1
  | inside holds pieces returned _ _ _ _ =>
    obtain ⟨-, p', older', hpieces', hp'⟩ := h.head _ holds
    rw [hpieces] at hpieces'
    obtain ⟨rfl, rfl⟩ := List.cons.inj hpieces'
    rw [hpieces, own_cons_self hp'] at pieces
    obtain ⟨-, rfl⟩ := List.cons.inj pieces
    exact (returned q (mem_own hq)).1
  | leaving _ pieces returned _ closed _ _ =>
    rw [pieces] at hmem
    rcases List.mem_cons.mp hmem with rfl | hmem
    · exact closed
    · exact (returned q hmem).1

/-- A piece whose call has not returned: its thread writes it, or is about to return. -/
theorem Recorded.pending (h : Recorded R content tr s) (hp : p ∈ piecesOf tr) (hnone : p.value = none) :
    (p.closed = false ∧ s.owner = some p.thread ∧ p.text <+: R.record p.call) ∨
      (p.closed = true ∧ ∃ v, s.thread p.thread = some (p.call, .ret v) ∧ R.Settled p.call p.text v) := by
  have hmem := mem_own hp
  have hnot : ∀ {rest}, Returned rest → p ∉ rest := by
    intro rest hrest hin
    have hsome := (hrest p hin).2
    rw [hnone] at hsome
    cases hsome
  have hstage := h.stage p.thread
  generalize hthread : s.thread p.thread = r at hstage
  cases hstage with
  | idle _ returned => exact absurd hmem (hnot returned)
  | called _ returned _ => exact absurd hmem (hnot returned)
  | inside holds pieces returned call isOpen _ holding =>
    rw [pieces] at hmem
    rcases List.mem_cons.mp hmem with rfl | hmem
    · rcases holding with ⟨rest, -, htext⟩ | ⟨-, htext⟩
      · exact .inl ⟨isOpen, holds, by rw [call, ← htext]; exact List.prefix_append _ _⟩
      · exact .inl ⟨isOpen, holds, by rw [call]; exact htext⟩
    · exact absurd hmem (hnot returned)
  | leaving _ pieces returned call closed _ settled =>
    rw [pieces] at hmem
    rcases List.mem_cons.mp hmem with rfl | hmem
    · exact .inr ⟨closed, _, by rw [call], by rw [call]; exact settled⟩
    · exact absurd hmem (hnot returned)

theorem Recorded.free (h : Recorded R content tr s) (hnone : ∀ t, between t tr = false) : s.owner = none := by
  cases howner : s.owner with
  | none => rfl
  | some t =>
    have hin := (h.head t howner).1
    rw [hnone t] at hin
    cases hin

end

end VlanTagger.Lib
