import VlanTagger.ConfigParser.Validation

/-!
# Where the line loop ends

The loop reads all pieces, or it leaves the file at the first one that it cannot take for a
comment or a rule. `endOf` says where, by the pieces alone, and so when two files have the
same outcome: they are left with the same code, or they are read to the end and have the
same rules.
-/
namespace VlanTagger.ConfigParser

open Lib Lib.CString

/-- How the loop leaves the file before its end. -/
inductive Ending
  | undefined
  | returned (code : Int)

/-- The ending of the loop with `n` rules before these pieces, if they are not all read. The
number of dashes is tested before the number of rules. -/
def endOf (host : ByteOrder) : Nat → List (List UInt8) → Option Ending
  | _, [] => none
  | n, piece :: rest =>
    match parsePiece host piece with
    | .undefined => some .undefined
    | .skip => endOf host n rest
    | .fail code => some (.returned (if n < maxRules ∨ code = -5 then code else -6))
    | .rule _ => if n < maxRules then endOf host (n + 1) rest else some (.returned (-6))

/-- The ending that an outcome of the loop is. -/
def endingOf : Option LineOutcome → Option Ending
  | none => some .undefined
  | some (.ret code _) => some (.returned code)
  | some (.next _ _) => none

/-- The outcome of a file that is left early: no rules. -/
def Ending.outcome : Ending → Option (Int × List TagRule)
  | .undefined => none
  | .returned code => some (code, [])

section

variable {host : ByteOrder} {n : Nat} {piece : List UInt8} {xs ys : List (List UInt8)}

theorem endOf_skip (h : parsePiece host piece = .skip) : endOf host n (piece :: xs) = endOf host n xs := by
  rw [endOf, h]

theorem endOf_rule {r : TagRule} (h : parsePiece host piece = .rule r) (hn : n < maxRules) :
    endOf host n (piece :: xs) = endOf host (n + 1) xs := by
  rw [endOf, h]
  exact if_pos hn

theorem endOf_fail {code : Int} (h : parsePiece host piece = .fail code) :
    endOf host n (piece :: xs) =
      some (.returned (if n < maxRules ∨ code = -5 then code else -6)) := by
  rw [endOf, h]

theorem endOf_congr {piece' : List UInt8} (h : parsePiece host piece = parsePiece host piece') :
    endOf host n (piece :: xs) = endOf host n (piece' :: xs) := by
  rw [endOf, endOf, h]

/-- Only the test of the dashes returns -5. -/
theorem parseTokens_error_ne {s : CString} {code : Int} (h : parseTokens host s = .error code) :
    code ≠ -5 := by
  unfold parseTokens at h
  split at h
  · cases h; decide
  split at h
  · cases h; decide
  split at h
  next hend =>
    cases h
    unfold rangeEnd at hend
    split at hend
    · cases hend
    split at hend
    · cases hend; decide
    split at hend
    · cases hend; decide
    · cases hend
  split at h
  · cases h; decide
  split at h
  · cases h; decide
  · cases h

/-- The code that the loop returns for a piece that does not parse. -/
theorem loadLine_fail_code {t t' : TagRules} {code code' : Int} (hp : parsePiece host piece = .fail code)
    (h : loadLine host t n (lineBuffer piece) = some (.ret code' t')) :
    code' = if n < maxRules ∨ code = -5 then code else -6 := by
  unfold parsePiece at hp
  unfold loadLine at h
  cases hedit : lineEditor (lineBuffer piece) with
  | none =>
    rw [hedit] at h
    cases h
  | some realStart =>
    simp only [hedit, Option.map_some, Option.some.injEq] at hp h
    unfold parseText at hp
    unfold loadText at h
    split_ifs at hp h with hskip hdash hn
    · cases hp
      cases h
      rw [if_pos (.inr rfl)]
    · rw [if_pos (.inl hn)]
      rcases loadTokens_eq host t n hn (cstr realStart) with ⟨r, hr, -⟩ | ⟨c, -, hr, t₁, hl⟩
      · rw [hr] at hp
        cases hp
      · rw [hr] at hp
        rw [hl] at h
        cases hp
        cases h
        rfl
    · cases h
      cases hr : parseTokens host (cstr realStart) with
      | ok r =>
        rw [hr] at hp
        cases hp
      | error c =>
        rw [hr] at hp
        cases hp
        rw [if_neg (not_or.mpr ⟨hn, parseTokens_error_ne hr⟩)]

/-- The loop ends where the pieces say, whatever is in the structure. -/
theorem endOf_eq (t : TagRules) : endOf host n xs = endingOf (loadLoop host t n xs) := by
  induction xs generalizing t n with
  | nil => rfl
  | cons piece rest ih =>
    rw [loadLoop]
    have hpass := loadLine_pass host t n piece
    generalize hout : loadLine host t n (lineBuffer piece) = out at hpass
    cases hpass with
    | undefined hp =>
      rw [endOf, hp]
      rfl
    | skip hp =>
      rw [endOf_skip hp]
      exact ih t
    | @rule r hn hp =>
      rw [endOf_rule hp hn]
      exact ih (t.set n hn r)
    | full hn hp =>
      rw [endOf, hp]
      exact if_neg hn
    | fail hp neg =>
      rw [endOf_fail hp, ← loadLine_fail_code hp hout]
      rfl

/-- The pieces `xs` come first. -/
theorem endOf_append : endOf host n (xs ++ ys) =
    (endOf host n xs).or (endOf host (n + (rulesOf host xs).length) ys) := by
  induction xs generalizing n with
  | nil => rfl
  | cons piece rest ih =>
    rw [List.cons_append]
    cases hp : parsePiece host piece with
    | undefined =>
      rw [endOf, endOf, hp]
      rfl
    | skip => rw [endOf_skip hp, endOf_skip hp, rulesOf_skip hp, ih]
    | fail code =>
      rw [endOf_fail hp, endOf_fail hp]
      rfl
    | rule r =>
      by_cases hn : n < maxRules
      · rw [endOf_rule hp hn, endOf_rule hp hn, rulesOf_rule hp, ih, List.length_cons, Nat.add_assoc,
          Nat.add_comm 1]
      · rw [endOf, endOf, hp]
        simp only [if_neg hn]
        rfl

theorem endOf_skips (h : ∀ piece ∈ xs, parsePiece host piece = .skip) : endOf host n xs = none := by
  induction xs with
  | nil => rfl
  | cons piece rest ih =>
    obtain ⟨hfirst, hrest⟩ := List.forall_mem_cons.mp h
    rw [endOf_skip hfirst, ih hrest]

theorem rulesOf_append : rulesOf host (xs ++ ys) = rulesOf host xs ++ rulesOf host ys :=
  List.filterMap_append

theorem rulesOf_skips (h : ∀ piece ∈ xs, parsePiece host piece = .skip) : rulesOf host xs = [] := by
  rw [rulesOf, List.filterMap_eq_nil_iff]
  intro piece hpiece
  simp only [ruleOf, h piece hpiece]

/-- Pieces that are all read and have no rule are passed over. -/
theorem skips_of_endOf (h : endOf host n xs = none) (hnone : rulesOf host xs = []) :
    ∀ piece ∈ xs, parsePiece host piece = .skip := by
  induction xs with
  | nil => exact fun _ hp => absurd hp List.not_mem_nil
  | cons piece rest ih =>
    cases hp : parsePiece host piece with
    | skip =>
      rw [endOf_skip hp] at h
      rw [rulesOf_skip hp] at hnone
      exact List.forall_mem_cons.mpr ⟨hp, ih h hnone⟩
    | rule r =>
      rw [rulesOf_rule hp] at hnone
      cases hnone
    | undefined =>
      rw [endOf, hp] at h
      cases h
    | fail code =>
      rw [endOf_fail hp] at h
      cases h

end

/-! ## The outcome -/

section

variable {host : ByteOrder}

theorem loadLine_skip {piece : List UInt8} (h : parsePiece host piece = .skip) (t : TagRules) (n : Nat) :
    loadLine host t n (lineBuffer piece) = some (.next t n) := by
  have hpass := loadLine_pass host t n piece
  generalize loadLine host t n (lineBuffer piece) = out at hpass
  cases hpass with
  | skip _ => rfl
  | undefined hp => rw [h] at hp; cases hp
  | rule _ hp => rw [h] at hp; cases hp
  | full _ hp => rw [h] at hp; cases hp
  | fail hp _ => rw [h] at hp; cases hp

/-- The codes with which the loop returns are not those of the validation. -/
theorem loadLine_ret_code {t t' : TagRules} {n : Nat} {rule : List UInt8} {code : Int}
    (h : loadLine host t n rule = some (.ret code t')) : -11 < code := by
  obtain ⟨realStart, -, h⟩ := Option.map_eq_some_iff.mp h
  unfold loadText at h
  split at h
  · cases h
  split at h
  · cases h; decide
  split at h
  next hn =>
    have hend : ∀ {m left save code}, rangeEnd host m left save = .error code → -11 < code := by
      intro m left save code hend
      unfold rangeEnd at hend
      split at hend
      · cases hend
      split at hend
      · cases hend; decide
      split at hend
      · cases hend; decide
      · cases hend
    unfold loadTokens at h
    simp only at h
    split at h
    · cases h; decide
    split at h
    · cases h; decide
    split at h
    next hcode =>
      cases h
      exact hend hcode
    split at h
    · cases h; decide
    split at h
    · cases h; decide
    · cases h
  · cases h; decide

theorem loadLoop_ret_code {t t' : TagRules} {n : Nat} {lines : List (List UInt8)} {code : Int}
    (h : loadLoop host t n lines = some (.ret code t')) : -11 < code := by
  induction lines generalizing t n with
  | nil => cases h
  | cons piece rest ih =>
    rw [loadLoop] at h
    split at h
    · cases h
    next hline =>
      cases h
      exact loadLine_ret_code hline
    · exact ih h

/-- The end of `tag_rules_load` when no call on the file fails. -/
def finish (host : ByteOrder) : Option LineOutcome → Option (Int × TagRules)
  | none => none
  | some (.ret code t) => some (code, t)
  | some (.next t loadedCount) =>
    let t := { t with size := loadedCount }
    if 0 < loadedCount ∧ validateRules host t ≠ 0 then some (validateRules host t, t)
    else some (loadedCount, t)

/-- The return value and the loaded rules. -/
def outcome (res : Option (Int × TagRules)) : Option (Int × List TagRule) :=
  res.map fun r => (r.1, r.2.loaded)

theorem Verdict.code_le {rs : List TagRule} {code : Int} (h : Verdict host rs code) (hneg : code < 0) :
    code ≤ -11 := by
  cases h with
  | unordered _ => decide
  | collision _ _ => decide
  | badTag _ _ _ => decide
  | valid _ => cases hneg

/-- The validation looks at the loaded rules only. -/
theorem validateRules_congr {t t' : TagRules} (h : t.loaded = t'.loaded) :
    validateRules host t = validateRules host t' := by
  unfold validateRules
  rw [h]

theorem outcome_ended {lines : List (List UInt8)} {e : Ending} (h : endOf host 0 lines = some e) :
    outcome (finish host (loadLoop host .zero 0 lines)) = e.outcome := by
  rw [endOf_eq TagRules.zero] at h
  cases hloop : loadLoop host .zero 0 lines with
  | none =>
    rw [hloop] at h
    cases h
    rfl
  | some out =>
    rw [hloop] at h
    cases out with
    | ret code t =>
      cases h
      have hsize : t.size = 0 := size_loadLoop hloop
      rw [finish, outcome, Option.map_some, TagRules.loaded, hsize, List.take_zero]
      rfl
    | next t n => cases h

/-- The codes of a file that is left early are neither counts nor those of the validation. -/
theorem code_of_endOf {lines : List (List UInt8)} {code : Int}
    (h : endOf host 0 lines = some (.returned code)) : -11 < code ∧ code < 0 := by
  rw [endOf_eq TagRules.zero] at h
  cases hloop : loadLoop host .zero 0 lines with
  | none =>
    rw [hloop] at h
    cases h
  | some out =>
    rw [hloop] at h
    cases out with
    | ret code' t =>
      cases h
      exact ⟨loadLoop_ret_code hloop, loadLoop_ret_neg hloop⟩
    | next t n => cases h

/-- The return value for rules that have all been read. -/
def codeOf (host : ByteOrder) (t : TagRules) : Int :=
  if 0 < t.size ∧ validateRules host t ≠ 0 then validateRules host t else t.size

theorem codeOf_congr {t t' : TagRules} (hsize : t.size = t'.size) (h : t.loaded = t'.loaded) :
    codeOf host t = codeOf host t' := by
  unfold codeOf
  rw [hsize, validateRules_congr h]

theorem codeOf_le (t : TagRules) : 0 ≤ codeOf host t ∨ codeOf host t ≤ -11 := by
  have hverdict := validateRules_verdict host t
  unfold codeOf
  split
  · rcases lt_or_ge (validateRules host t) 0 with hneg | hpos
    · exact .inr (hverdict.code_le hneg)
    · exact .inl hpos
  · exact .inl (Int.natCast_nonneg _)

/-- A file that is read to its end has all its rules for an outcome. -/
theorem outcome_read {lines : List (List UInt8)} (h : endOf host 0 lines = none) :
    ∃ t : TagRules, t.size = (rulesOf host lines).length ∧ t.loaded = rulesOf host lines ∧
      outcome (finish host (loadLoop host .zero 0 lines)) = some (codeOf host t, rulesOf host lines) := by
  rw [endOf_eq TagRules.zero] at h
  cases hloop : loadLoop host .zero 0 lines with
  | none =>
    rw [hloop] at h
    cases h
  | some out =>
    rw [hloop] at h
    cases out with
    | ret code t => cases h
    | next t n =>
      obtain ⟨-, hcount, -, hrules⟩ := loadLoop_next (Nat.zero_le _) hloop
      rw [List.take_zero, List.nil_append] at hrules
      have hloaded : TagRules.loaded { t with size := n } = rulesOf host lines := hrules
      refine ⟨{ t with size := n }, by rw [hcount, Nat.zero_add], hloaded, ?_⟩
      rw [finish, outcome, ← hloaded]
      unfold codeOf
      split <;> rfl

/-- Two files have the same outcome when they are left in the same way, or are both read to the
end and have the same rules. -/
theorem outcome_eq_iff {xs ys : List (List UInt8)} :
    outcome (finish host (loadLoop host .zero 0 xs)) = outcome (finish host (loadLoop host .zero 0 ys)) ↔
      endOf host 0 xs = endOf host 0 ys ∧
        (endOf host 0 xs = none → rulesOf host xs = rulesOf host ys) := by
  -- a file that is left early and one that is read differ in the code
  have hdiffer : ∀ {e : Ending} {xs ys : List (List UInt8)}, endOf host 0 xs = some e →
      endOf host 0 ys = none → outcome (finish host (loadLoop host .zero 0 xs)) ≠
        outcome (finish host (loadLoop host .zero 0 ys)) := by
    intro e xs ys hx hy heq
    obtain ⟨t, -, -, hread⟩ := outcome_read hy
    rw [outcome_ended hx, hread] at heq
    cases e with
    | undefined => cases heq
    | returned code =>
      have hcode := code_of_endOf hx
      have hsame : code = codeOf host t := (Prod.mk.inj (Option.some.inj heq)).1
      rcases @codeOf_le host t with hle | hle <;> omega
  cases hx : endOf host 0 xs with
  | some e =>
    cases hy : endOf host 0 ys with
    | some e' =>
      rw [outcome_ended hx, outcome_ended hy]
      cases e <;> cases e' <;> simp [Ending.outcome]
    | none => simp [hdiffer hx hy]
  | none =>
    cases hy : endOf host 0 ys with
    | some e => simp [(hdiffer hy hx).symm]
    | none =>
      obtain ⟨t, hsize, hloaded, hread⟩ := outcome_read hx
      obtain ⟨t', hsize', hloaded', hread'⟩ := outcome_read hy
      rw [hread, hread', Option.some_inj, Prod.mk.injEq]
      refine ⟨fun h => ⟨rfl, fun _ => h.2⟩, fun h => ?_⟩
      have hrules := h.2 rfl
      exact ⟨codeOf_congr (by rw [hsize, hsize', hrules]) (by rw [hloaded, hloaded', hrules]), hrules⟩

/-- What stands behind the same beginning makes a difference only where it is read. -/
theorem outcome_append_iff {before xs ys : List (List UInt8)} :
    outcome (finish host (loadLoop host .zero 0 (before ++ xs))) =
        outcome (finish host (loadLoop host .zero 0 (before ++ ys))) ↔
      (endOf host 0 before).isSome = true ∨
        endOf host (rulesOf host before).length xs = endOf host (rulesOf host before).length ys ∧
          (endOf host (rulesOf host before).length xs = none → rulesOf host xs = rulesOf host ys) := by
  rw [outcome_eq_iff, endOf_append, endOf_append, Nat.zero_add, rulesOf_append, rulesOf_append,
    List.append_cancel_left_eq]
  cases endOf host 0 before with
  | none => simp
  | some e => simp

end

end VlanTagger.ConfigParser
