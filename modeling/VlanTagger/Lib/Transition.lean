import Mathlib.Data.List.Basic

/-!
# Labelled transition systems and their runs

A system has a set of start states and a labelled step relation. A run is
recorded with the list of its labels, so that a property of a run can speak of
what was done as well as of the state that was reached. The rules below
are all that the rest of the development uses: the steps of a run, an invariant over
runs, the restriction of a system to the steps that meet a condition, and forward
simulation between two systems with the same labels.
-/
namespace VlanTagger.Lib

structure System (σ ε : Type*) where
  init : σ → Prop
  step : σ → ε → σ → Prop

namespace System

variable {σ τ ε : Type*}

/-- `M.Run tr s`: from some start state, the labels `tr` lead to `s`. -/
inductive Run (M : System σ ε) : List ε → σ → Prop
  | start {s : σ} (h : M.init s) : Run M [] s
  | snoc {tr : List ε} {s t : σ} {e : ε} (run : Run M tr s) (h : M.step s e t) :
      Run M (tr ++ [e]) t

def Reachable (M : System σ ε) (s : σ) : Prop := ∃ tr, M.Run tr s

theorem Run.reachable {M : System σ ε} {tr : List ε} {s : σ} (h : M.Run tr s) :
    M.Reachable s := ⟨tr, h⟩

theorem Reachable.start {M : System σ ε} {s : σ} (h : M.init s) : M.Reachable s :=
  ⟨[], .start h⟩

theorem Reachable.step {M : System σ ε} {s t : σ} {e : ε} (hs : M.Reachable s)
    (h : M.step s e t) : M.Reachable t := by
  obtain ⟨tr, hr⟩ := hs
  exact ⟨tr ++ [e], hr.snoc h⟩

/-- The last step of a run. -/
theorem Run.of_snoc {M : System σ ε} {tr : List ε} {e : ε} {t : σ} (h : M.Run (tr ++ [e]) t) :
    ∃ s, M.Run tr s ∧ M.step s e t := by
  generalize htr : tr ++ [e] = tr' at h
  cases h with
  | start _ => simp at htr
  | snoc run h =>
    obtain ⟨rfl, he⟩ := List.append_inj' htr rfl
    cases he
    exact ⟨_, run, h⟩

/-- Every label of a run is the label of one of its steps. -/
theorem Run.exists_step {M : System σ ε} {tr : List ε} {s : σ} (h : M.Run tr s) {e : ε}
    (he : e ∈ tr) : ∃ t t', M.step t e t' := by
  induction h with
  | start _ => cases he
  | snoc _ h ih =>
    rcases List.mem_append.mp he with he | he
    · exact ih he
    · rw [List.mem_singleton] at he
      subst he
      exact ⟨_, _, h⟩

/-- The invariant rule, for a property of the labels so far and the state. -/
theorem Run.invariant {M : System σ ε} {I : List ε → σ → Prop}
    (start : ∀ s, M.init s → I [] s)
    (step : ∀ tr s e t, M.Run tr s → I tr s → M.step s e t → I (tr ++ [e]) t)
    {tr : List ε} {s : σ} (h : M.Run tr s) : I tr s := by
  induction h with
  | start h => exact start _ h
  | snoc run h ih => exact step _ _ _ _ run ih h

/-- The invariant rule for a property of states alone. -/
theorem Reachable.invariant {M : System σ ε} {I : σ → Prop}
    (start : ∀ s, M.init s → I s) (step : ∀ s e t, I s → M.step s e t → I t)
    {s : σ} (h : M.Reachable s) : I s := by
  obtain ⟨tr, hr⟩ := h
  exact hr.invariant (I := fun _ s => I s) start fun _ s e t _ hi hs => step s e t hi hs

/-- The same system with only those steps whose pre-state and label meet `C`. -/
def restrict (M : System σ ε) (C : σ → ε → Prop) : System σ ε where
  init := M.init
  step := fun s e t => M.step s e t ∧ C s e

theorem Run.of_restrict {M : System σ ε} {C : σ → ε → Prop} {tr : List ε} {s : σ}
    (h : (M.restrict C).Run tr s) : M.Run tr s := by
  induction h with
  | start h => exact .start h
  | snoc _ h ih => exact ih.snoc h.1

/-- Where an invariant of the runs that meet `C` makes every step of theirs meet `D`, these
runs meet `D`. -/
theorem Reachable.restrict {M : System σ ε} {C D : σ → ε → Prop} {I : σ → Prop}
    (start : ∀ s, M.init s → I s) (step : ∀ s e t, I s → M.step s e t → C s e → I t)
    (meets : ∀ s e t, I s → M.step s e t → C s e → D s e) {s : σ}
    (h : (M.restrict C).Reachable s) : (M.restrict D).Reachable s := by
  have hboth : I s ∧ (M.restrict D).Reachable s := by
    refine h.invariant (I := fun s => I s ∧ (M.restrict D).Reachable s) ?_ ?_
    · intro s hs
      exact ⟨start s hs, .start hs⟩
    · intro s e t hi hs
      exact ⟨step s e t hi.1 hs.1 hs.2, hi.2.step ⟨hs.1, meets s e t hi.1 hs.1 hs.2⟩⟩
  exact hboth.2

/-- The labels of a run meet what the condition says about labels. -/
theorem Run.forall_of_restrict {M : System σ ε} {C : σ → ε → Prop} {P : ε → Prop}
    (hC : ∀ s e, C s e → P e) {tr : List ε} {s : σ} (h : (M.restrict C).Run tr s) :
    ∀ e ∈ tr, P e := by
  intro e he
  obtain ⟨t, t', hstep⟩ := h.exists_step he
  exact hC t e hstep.2

/-- `R` is a forward simulation of `M` by `N`. -/
structure Simulation (M : System σ ε) (N : System τ ε) (R : σ → τ → Prop) : Prop where
  start : ∀ s, M.init s → ∃ t, N.init t ∧ R s t
  step : ∀ {s s' e t}, R s t → M.step s e s' → ∃ t', N.step t e t' ∧ R s' t'

/-- Every run of the simulated system is matched, label by label. -/
theorem Simulation.run {M : System σ ε} {N : System τ ε} {R : σ → τ → Prop}
    (sim : Simulation M N R) {tr : List ε} {s : σ} (h : M.Run tr s) :
    ∃ t, N.Run tr t ∧ R s t := by
  induction h with
  | start h =>
    obtain ⟨t, ht, hr⟩ := sim.start _ h
    exact ⟨t, .start ht, hr⟩
  | snoc _ h ih =>
    obtain ⟨t, ht, hr⟩ := ih
    obtain ⟨t', hs, hr'⟩ := sim.step hr h
    exact ⟨t', ht.snoc hs, hr'⟩

end System
end VlanTagger.Lib
