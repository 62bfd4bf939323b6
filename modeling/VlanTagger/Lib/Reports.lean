import Mathlib.Data.List.Induction
import Mathlib.Data.Nat.ModEq
import VlanTagger.Lib.Transition

/-!
# Systems that keep a log

A log beside the state of a system, to which a step may append, and reports on what was taken in so
far. The rules are those of a run, of what is put out item by item, and the number of regular
reports.
-/
namespace VlanTagger.Lib

namespace System

variable {σ ε β : Type*}

/-- `M` with a log: a step appends what `emits` allows it to. -/
def logging (M : System σ ε) (emits : σ → ε → List β → Prop) : System (σ × List β) ε where
  init := fun s => M.init s.1 ∧ s.2 = []
  step := fun s e t => M.step s.1 e t.1 ∧ ∃ out, emits s.1 e out ∧ t.2 = s.2 ++ out

variable {M : System σ ε} {emits : σ → ε → List β → Prop}

theorem Run.of_logging {tr : List ε} {s : σ × List β} (h : (M.logging emits).Run tr s) : M.Run tr s.1 := by
  induction h with
  | start h => exact .start h.1
  | snoc _ h ih => exact ih.snoc h.1

/-- The log does not stand in the way of a run. -/
theorem Run.exists_logging (hemits : ∀ s e, ∃ out, emits s e out) {tr : List ε} {s : σ} (h : M.Run tr s) :
    ∃ log, (M.logging emits).Run tr (s, log) := by
  induction h with
  | start h => exact ⟨[], .start ⟨h, rfl⟩⟩
  | @snoc tr s t e _ h ih =>
    obtain ⟨log, hrun⟩ := ih
    obtain ⟨out, hout⟩ := hemits s e
    exact ⟨log ++ out, hrun.snoc ⟨h, out, hout, rfl⟩⟩

end System

section

variable {α β : Type*}

/-- What `report` says of the beginnings of `xs`, each one longer than the one before. -/
def reports (report : List α → Option β) (xs : List α) : List β :=
  (List.range xs.length).filterMap fun i => report (xs.take (i + 1))

theorem reports_snoc (report : List α → Option β) (xs : List α) (x : α) :
    reports report (xs ++ [x]) = reports report xs ++ (report (xs ++ [x])).toList := by
  have hwhole : (xs ++ [x]).take (xs.length + 1) = xs ++ [x] :=
    List.take_of_length_le (by rw [List.length_append, List.length_singleton])
  have hbefore : ∀ i ∈ List.range xs.length, report ((xs ++ [x]).take (i + 1)) = report (xs.take (i + 1)) := by
    intro i hi
    rw [List.take_append_of_le_length (List.mem_range.mp hi)]
  rw [reports, List.length_append, List.length_singleton, List.range_succ, List.filterMap_append,
    List.filterMap_congr hbefore, List.filterMap_cons, hwhole]
  cases report (xs ++ [x]) <;> rfl

/-- A report on every `k`-th beginning. -/
theorem length_reports {report : List α → Option β} {k : Nat} {xs : List α}
    (h : ∀ ys : List α, ys ≠ [] → ys.length ≤ xs.length → ((report ys).isSome = true ↔ k ∣ ys.length)) :
    (reports report xs).length = xs.length / k := by
  induction xs using List.reverseRecOn with
  | nil => exact (Nat.zero_div k).symm
  | append_singleton xs x ih =>
    have hlength : (xs ++ [x]).length = xs.length + 1 := List.length_append
    have hlast := h (xs ++ [x]) (List.concat_ne_nil x xs) (Nat.le_refl _)
    have hih := ih fun ys hne hle => h ys hne (hle.trans (hlength ▸ Nat.le_succ _))
    rw [hlength] at hlast
    rw [reports_snoc, List.length_append, hih, hlength, Nat.succ_div]
    by_cases hk : k ∣ xs.length + 1
    · obtain ⟨b, hb⟩ := Option.isSome_iff_exists.mp (hlast.mpr hk)
      rw [hb, if_pos hk]
      rfl
    · have hnone := Option.not_isSome_iff_eq_none.mp fun hsome => hk (hlast.mp hsome)
      rw [hnone, if_neg hk]
      rfl

theorem map_reports {γ : Type*} (report : List α → Option β) (f : β → γ) (xs : List α) :
    (reports report xs).map f = reports (fun ys => (report ys).map f) xs := List.map_filterMap

theorem reports_congr {report report' : List α → Option β} {xs : List α}
    (h : ∀ ys, ys.IsPrefix xs → report ys = report' ys) : reports report xs = reports report' xs :=
  List.filterMap_congr fun i _ => h _ (List.take_prefix (i + 1) xs)

/-- What was put out while `xs` was taken in, one item after the other: behind each item what `shows`
allows for the items up to it. -/
inductive Reported (shows : List α → List β → Prop) : List α → List β → Prop
  | nil : Reported shows [] []
  | snoc {xs : List α} {out out' : List β} {x : α} (before : Reported shows xs out)
      (item : shows (xs ++ [x]) out') : Reported shows (xs ++ [x]) (out ++ out')

/-- Outputs that show the reports. -/
theorem Reported.map_eq {γ : Type*} {shows : List α → List β → Prop} {f : β → γ} {report : List α → Option γ}
    (hshows : ∀ xs out, shows xs out → out.map f = (report xs).toList) {xs : List α} {out : List β}
    (h : Reported shows xs out) : out.map f = reports report xs := by
  induction h with
  | nil => rfl
  | snoc _ item ih => rw [List.map_append, ih, hshows _ _ item, reports_snoc]

/-- A report on the last of each beginning. -/
theorem reports_getLast? (xs : List α) : reports List.getLast? xs = xs := by
  induction xs using List.reverseRecOn with
  | nil => rfl
  | append_singleton xs x ih =>
    rw [reports_snoc, ih, List.getLast?_concat]
    rfl

end

end VlanTagger.Lib
