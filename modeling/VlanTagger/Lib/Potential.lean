import Mathlib.Algebra.BigOperators.Group.List.Basic
import Mathlib.Algebra.GroupWithZero.Nat
import VlanTagger.Lib.Transition

/-!
# How long a system can go on

Steps that are paid for out of a potential. Some labels are inner ones, and a label may earn;
if every inner step lowers the potential but for what it earns, and no other step raises it by
more than it earns, a path has no more inner steps than the potential at its start and what was
earned on the way. When inner steps earn nothing, a system that is left alone comes to rest.
-/
namespace VlanTagger.Lib.System

variable {σ ε : Type*} {M : System σ ε}

/-- `M.Path s tr t`: the labels `tr` lead from `s` to `t`. -/
inductive Path (M : System σ ε) : σ → List ε → σ → Prop
  | nil (s : σ) : Path M s [] s
  | snoc {s t u : σ} {tr : List ε} {e : ε} (path : Path M s tr t) (h : M.step t e u) :
      Path M s (tr ++ [e]) u

namespace Path

variable {s t u : σ} {tr tr' : List ε}

theorem single {e : ε} (h : M.step s e t) : M.Path s [e] t := .snoc (.nil s) h

theorem append (h : M.Path s tr t) (h' : M.Path t tr' u) : M.Path s (tr ++ tr') u := by
  induction h' with
  | nil =>
    rw [List.append_nil]
    exact h
  | snoc _ hs ih =>
    rw [← List.append_assoc]
    exact ih.snoc hs

theorem invariant {I : σ → Prop} (step : ∀ s e t, I s → M.step s e t → I t)
    (h : M.Path s tr t) (hs : I s) : I t := by
  induction h with
  | nil => exact hs
  | snoc _ h ih => exact step _ _ _ ih h

/-- The inner steps of a path are paid by the potential at its start and by what it earns. -/
theorem countP_le {I : σ → Prop} {μ : σ → Nat} {inner : ε → Bool} {earn : ε → Nat}
    (keep : ∀ s e t, I s → M.step s e t → I t)
    (step : ∀ s e t, I s → M.step s e t → μ t + (if inner e then 1 else 0) ≤ μ s + earn e)
    (h : M.Path s tr t) (hs : I s) : μ t + tr.countP inner ≤ μ s + (tr.map earn).sum := by
  induction h with
  | nil => exact Nat.le_refl _
  | snoc path h ih =>
    have hstep := step _ _ _ (path.invariant keep hs) h
    rw [List.countP_append, List.countP_singleton, List.map_append, List.sum_append,
      List.map_singleton, List.sum_singleton]
    omega

/-- As `countP_le`, where an earning label earns one step. -/
theorem countP_le_countP {I : σ → Prop} {μ : σ → Nat} {inner earns : ε → Bool}
    (keep : ∀ s e t, I s → M.step s e t → I t)
    (step : ∀ s e t, I s → M.step s e t →
      μ t + (if inner e then 1 else 0) ≤ μ s + (if earns e then 1 else 0))
    (h : M.Path s tr t) (hs : I s) : μ t + tr.countP inner ≤ μ s + tr.countP earns := by
  have hsum : ∀ l : List ε, (l.map fun e => if earns e then 1 else 0).sum = l.countP earns := by
    intro l
    induction l with
    | nil => rfl
    | cons e l ih => rw [List.map_cons, List.sum_cons, ih, List.countP_cons, Nat.add_comm]
  rw [← hsum]
  exact h.countP_le keep step hs

end Path

/-- A run goes on along a path. -/
theorem Run.path {s t : σ} {tr tr' : List ε} (h : M.Run tr s) (h' : M.Path s tr' t) :
    M.Run (tr ++ tr') t := by
  induction h' with
  | nil =>
    rw [List.append_nil]
    exact h
  | snoc _ hs ih =>
    rw [← List.append_assoc]
    exact ih.snoc hs

/-- No step with such a label is possible. -/
def Quiet (M : System σ ε) (inner : ε → Bool) (s : σ) : Prop :=
  ∀ e t, M.step s e t → inner e = false

/-- A system whose inner steps lower a potential comes to rest by inner steps. -/
theorem exists_quiet {I : σ → Prop} {μ : σ → Nat} {inner : ε → Bool}
    (keep : ∀ s e t, I s → M.step s e t → I t)
    (lower : ∀ s e t, I s → M.step s e t → inner e = true → μ t < μ s) {s : σ} (hs : I s) :
    ∃ tr t, M.Path s tr t ∧ (∀ e ∈ tr, inner e = true) ∧ M.Quiet inner t := by
  induction hn : μ s using Nat.strongRecOn generalizing s with
  | _ n ih =>
    subst hn
    by_cases hquiet : M.Quiet inner s
    · exact ⟨[], s, .nil s, by simp, hquiet⟩
    · unfold Quiet at hquiet
      push Not at hquiet
      obtain ⟨e, t, h, he⟩ := hquiet
      rw [ne_eq, Bool.not_eq_false] at he
      obtain ⟨tr, u, hpath, hinner, hrest⟩ := ih (μ t) (lower s e t hs h he) (keep s e t hs h) rfl
      refine ⟨[e] ++ tr, u, (Path.single h).append hpath, fun e' he' => ?_, hrest⟩
      rcases List.mem_append.mp he' with he' | he'
      · rwa [List.mem_singleton.mp he']
      · exact hinner e' he'

end VlanTagger.Lib.System
