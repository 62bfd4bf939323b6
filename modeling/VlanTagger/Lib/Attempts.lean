import Mathlib.Data.List.Induction
import VlanTagger.Lib.Transition

/-!
# Giving up after failures in a row

A loop makes an attempt in some of its steps and gives up at the first failure behind
`limit` failures in a row. `giveUpSystem` is the rule with a counter; `giveUp_iff` and
`goesOn_iff` say which sequences of results make it give up or go on, without the counter.
-/
namespace VlanTagger.Lib

/-- The number of failures (`false`) since the last success. -/
def streak (results : List Bool) : Nat := (results.reverse.takeWhile fun b => !b).length

@[simp] theorem streak_success (results : List Bool) : streak (results ++ [true]) = 0 := by
  simp [streak]

@[simp] theorem streak_failure (results : List Bool) : streak (results ++ [false]) = streak results + 1 := by
  simp [streak]

/-- How a loop stands after a step. -/
inductive Standing
  | running
  | gaveUp
  | left
  deriving DecidableEq

section

variable {ε : Type*} {limit : Nat} {result : ε → Option Bool}

/-- The results of the attempts; a step with `none` makes no attempt. -/
def attempts (result : ε → Option Bool) (tr : List ε) : List Bool := tr.filterMap result

/-- At no time are there more than `limit` failures in a row. -/
def Tolerable (limit : Nat) (result : ε → Option Bool) (tr : List ε) : Prop :=
  ∀ tr', tr' <+: tr → streak (attempts result tr') ≤ limit

/-- The last step makes one failure too many in a row, for the first time. -/
def Exhausted (limit : Nat) (result : ε → Option Bool) (tr : List ε) : Prop :=
  ∃ tr' e, tr = tr' ++ [e] ∧ Tolerable limit result tr' ∧ streak (attempts result tr) = limit + 1

/-- A loop with a counter, which makes steps while it runs. -/
def loopSystem {κ : Type*} (start : κ) (body : κ → ε → κ × Standing) : System (κ × Standing) ε where
  init := fun s => s = (start, .running)
  step := fun s e s' => s.2 = .running ∧ s' = body s.1 e

def giveUpRule (limit : Nat) (result : ε → Option Bool) (count : Nat) (e : ε) : Nat × Standing :=
  match result e with
  | none => (count, .running)
  | some true => (0, .running)
  | some false => if count = limit then (count, .gaveUp) else (count + 1, .running)

def giveUpSystem (limit : Nat) (result : ε → Option Bool) : System (Nat × Standing) ε :=
  loopSystem 0 (giveUpRule limit result)

theorem tolerable_nil : Tolerable limit result [] := by
  intro tr' h
  rw [List.prefix_nil.mp h]
  exact Nat.zero_le _

theorem tolerable_concat {tr : List ε} {e : ε} :
    Tolerable limit result (tr ++ [e]) ↔
      Tolerable limit result tr ∧ streak (attempts result (tr ++ [e])) ≤ limit := by
  constructor
  · exact fun h => ⟨fun tr' hp => h tr' (hp.trans (List.prefix_append _ _)), h _ (List.prefix_refl _)⟩
  · rintro ⟨h, hlast⟩ tr' hp
    rcases List.prefix_concat_iff.mp hp with rfl | hp
    · exact hlast
    · exact h tr' hp

theorem attempts_concat (result : ε → Option Bool) (tr : List ε) (e : ε) :
    attempts result (tr ++ [e]) = attempts result tr ++ (result e).toList := by
  rw [attempts, List.filterMap_append, ← attempts]
  cases h : result e <;> simp [h]

/-- While the loop runs, its counter is the number of failures since the last success. -/
structure Counting (limit : Nat) (result : ε → Option Bool) (tr : List ε) (s : Nat × Standing) : Prop where
  bound : s.1 ≤ limit
  stays : s.2 ≠ .left
  running : s.2 = .running → Tolerable limit result tr ∧ streak (attempts result tr) = s.1
  gaveUp : s.2 = .gaveUp → Exhausted limit result tr

theorem counting_run {tr : List ε} {s : Nat × Standing} (h : (giveUpSystem limit result).Run tr s) :
    Counting limit result tr s := by
  induction h with
  | start hinit =>
    rw [hinit]
    exact ⟨Nat.zero_le _, by decide, fun _ => ⟨tolerable_nil, rfl⟩, fun h => by cases h⟩
  | @snoc tr s s' e run hstep ih =>
    obtain ⟨hrunning, hs'⟩ := hstep
    obtain ⟨htol, hstreak⟩ := ih.running hrunning
    have hbound := ih.bound
    have hnext := congrArg streak (attempts_concat result tr e)
    cases hres : result e with
    | none =>
      simp only [giveUpRule, hres] at hs'
      rw [hres, Option.toList_none, List.append_nil, hstreak] at hnext
      subst hs'
      refine ⟨hbound, Standing.noConfusion, fun _ => ⟨tolerable_concat.mpr ⟨htol, ?_⟩, hnext⟩, fun h => ?_⟩
      · omega
      · cases h
    | some b =>
      cases b with
      | true =>
        simp only [giveUpRule, hres] at hs'
        rw [hres, Option.toList_some, streak_success] at hnext
        subst hs'
        refine ⟨Nat.zero_le _, by decide, fun _ => ⟨tolerable_concat.mpr ⟨htol, ?_⟩, hnext⟩, fun h => ?_⟩
        · omega
        · cases h
      | false =>
        simp only [giveUpRule, hres] at hs'
        rw [hres, Option.toList_some, streak_failure, hstreak] at hnext
        by_cases hlimit : s.1 = limit
        · rw [if_pos hlimit] at hs'
          subst hs'
          refine ⟨hbound, Standing.noConfusion, fun h => ?_, fun _ => ⟨tr, e, rfl, htol, ?_⟩⟩
          · cases h
          · omega
        · rw [if_neg hlimit] at hs'
          subst hs'
          refine ⟨Nat.lt_of_le_of_ne hbound hlimit, Standing.noConfusion,
            fun _ => ⟨tolerable_concat.mpr ⟨htol, ?_⟩, hnext⟩, fun h => ?_⟩
          · omega
          · cases h

theorem run_goes_on {tr : List ε} {s : Nat × Standing} (h : (giveUpSystem limit result).Run tr s)
    (hs : s.2 = .running) (e : ε) : ∃ s', (giveUpSystem limit result).Run (tr ++ [e]) s' :=
  ⟨_, h.snoc ⟨hs, rfl⟩⟩

theorem goesOn_iff {tr : List ε} :
    (∃ s, (giveUpSystem limit result).Run tr s ∧ s.2 = .running) ↔ Tolerable limit result tr := by
  constructor
  · rintro ⟨s, hrun, hs⟩
    exact ((counting_run hrun).running hs).1
  · intro htol
    induction tr using List.reverseRecOn with
    | nil => exact ⟨_, .start rfl, rfl⟩
    | append_singleton tr e ih =>
      obtain ⟨htol, hlast⟩ := tolerable_concat.mp htol
      obtain ⟨s, hrun, hs⟩ := ih htol
      obtain ⟨s', hrun'⟩ := run_goes_on hrun hs e
      refine ⟨s', hrun', ?_⟩
      have hcount := counting_run hrun'
      cases hs' : s'.2 with
      | running => rfl
      | gaveUp =>
        obtain ⟨-, -, -, -, hexh⟩ := hcount.gaveUp hs'
        omega
      | left => exact absurd hs' hcount.stays

theorem giveUp_iff {tr : List ε} :
    (∃ s, (giveUpSystem limit result).Run tr s ∧ s.2 = .gaveUp) ↔ Exhausted limit result tr := by
  constructor
  · rintro ⟨s, hrun, hs⟩
    exact (counting_run hrun).gaveUp hs
  · rintro ⟨tr, e, rfl, htol, hexh⟩
    obtain ⟨s, hrun, hs⟩ := goesOn_iff.mpr htol
    obtain ⟨s', hrun'⟩ := run_goes_on hrun hs e
    refine ⟨s', hrun', ?_⟩
    have hcount := counting_run hrun'
    cases hs' : s'.2 with
    | running =>
      obtain ⟨-, hstreak⟩ := hcount.running hs'
      have hbound := hcount.bound
      omega
    | gaveUp => rfl
    | left => exact absurd hs' hcount.stays

/-! ## Loops that follow the rule -/

variable {κ : Type*} {start : κ} {body : κ → ε → κ × Standing} {value : κ → Nat}

/-- The loop ends exactly at the first failure that is number `limit + 1` in a row, and its
counter never exceeds `limit`. -/
structure GivesUpAfter (limit : Nat) (result : ε → Option Bool) (M : System (κ × Standing) ε)
    (value : κ → Nat) : Prop where
  bound : ∀ tr s, M.Run tr s → value s.1 ≤ limit
  stays : ∀ tr s, M.Run tr s → s.2 ≠ .left
  goesOn : ∀ tr, (∃ s, M.Run tr s ∧ s.2 = .running) ↔ Tolerable limit result tr
  gaveUp : ∀ tr, (∃ s, M.Run tr s ∧ s.2 = .gaveUp) ↔ Exhausted limit result tr

/-- It is enough that the body does what the rule does, while the counter is in its range. -/
theorem givesUpAfter_of_body (hstart : value start = 0)
    (hbody : ∀ c e, value c ≤ limit →
      (value (body c e).1, (body c e).2) = giveUpRule limit result (value c) e) :
    GivesUpAfter limit result (loopSystem start body) value := by
  have hforward : ∀ {tr s}, (loopSystem start body).Run tr s →
      (giveUpSystem limit result).Run tr (value s.1, s.2) := by
    intro tr s hrun
    induction hrun with
    | start hinit =>
      rw [hinit]
      exact .start (congrArg (·, Standing.running) hstart)
    | snoc _ hstep ih =>
      obtain ⟨hrunning, rfl⟩ := hstep
      exact ih.snoc ⟨hrunning, hbody _ _ (counting_run ih).bound⟩
  have hback : ∀ {tr t}, (giveUpSystem limit result).Run tr t →
      ∃ s, (loopSystem start body).Run tr s ∧ (value s.1, s.2) = t := by
    intro tr t hrun
    induction hrun with
    | start hinit =>
      rw [hinit]
      exact ⟨_, .start rfl, congrArg (·, Standing.running) hstart⟩
    | snoc run hstep ih =>
      obtain ⟨s, hs, rfl⟩ := ih
      obtain ⟨hrunning, rfl⟩ := hstep
      exact ⟨_, hs.snoc ⟨hrunning, rfl⟩, hbody _ _ (counting_run run).bound⟩
  have hsame (tr : List ε) (st : Standing) : (∃ s, (loopSystem start body).Run tr s ∧ s.2 = st) ↔
      ∃ t, (giveUpSystem limit result).Run tr t ∧ t.2 = st := by
    constructor
    · rintro ⟨s, hrun, hs⟩
      exact ⟨_, hforward hrun, hs⟩
    · rintro ⟨t, ht, hs⟩
      obtain ⟨s, hrun, rfl⟩ := hback ht
      exact ⟨s, hrun, hs⟩
  exact ⟨fun tr s h => (counting_run (hforward h)).bound, fun tr s h => (counting_run (hforward h)).stays,
    fun tr => (hsame tr _).trans goesOn_iff, fun tr => (hsame tr _).trans giveUp_iff⟩

end

end VlanTagger.Lib
