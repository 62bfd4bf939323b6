import VlanTagger.ConfigParser.Model

/-!
# The line loop, piece by piece

What one piece of the file means does not depend on the rules before it, apart
from the limit on their number. `parsePiece` says what a piece alone is worth:
nothing, a rule, an error code, or an access outside the line buffer. The two
laws of this module say what the line loop does with a list of pieces, in terms
of `parsePiece` alone.
-/
namespace VlanTagger.ConfigParser

open Lib Lib.CString

/-- The rule that the tokens of a text make. -/
def parseTokens (host : ByteOrder) (s : CString) : Except Int TagRule :=
  match strtok (chr '-') s with
  | none => .error (-7)
  | some (rulePart, saveptr) =>
    match ipConverting host rulePart with
    | none => .error (-8)
    | some left =>
      match rangeEnd host (charCount s (chr '-')) left saveptr with
      | .error code => .error code
      | .ok (right, saveptr) =>
        match strtok (chr '-') saveptr with
        | none => .error (-7)
        | some (rulePart, _) =>
          match tagConverting rulePart with
          | none => .error (-9)
          | some tag => .ok ⟨left, right, tag⟩

inductive Parsed
  | undefined
  | skip
  | fail (code : Int)
  | rule (r : TagRule)

def parseText (host : ByteOrder) (s : CString) : Parsed :=
  if Skipped s then .skip
  else if BadDashes s then .fail (-5)
  else
    match parseTokens host s with
    | .error code => .fail code
    | .ok r => .rule r

def parsePiece (host : ByteOrder) (piece : List UInt8) : Parsed :=
  match lineEditor (lineBuffer piece) with
  | none => .undefined
  | some realStart => parseText host (cstr realStart)

/-- The piece is blank, a comment or a rule. -/
def Parses (host : ByteOrder) (piece : List UInt8) : Prop :=
  parsePiece host piece = .skip ∨ ∃ r, parsePiece host piece = .rule r

def ruleOf (host : ByteOrder) (piece : List UInt8) : Option TagRule :=
  match parsePiece host piece with
  | .rule r => some r
  | _ => none

/-- The rules of the pieces, in file order. -/
def rulesOf (host : ByteOrder) (lines : List (List UInt8)) : List TagRule :=
  lines.filterMap (ruleOf host)

theorem set_set (t : TagRules) (i : Nat) (h : i < maxRules) (r r' : TagRule) :
    (t.set i h r).set i h r' = t.set i h r' := by
  simp [TagRules.set]

theorem rangeEnd_error_neg {host : ByteOrder} {n : Nat} {left : UInt32} {s : CString} {code : Int}
    (h : rangeEnd host n left s = .error code) : code < 0 := by
  unfold rangeEnd at h
  split at h
  · cases h
  split at h
  · cases h; decide
  split at h
  · cases h; decide
  · cases h

/-- The tokens are stored as the rule they make, or the loader returns their code. -/
theorem loadTokens_eq (host : ByteOrder) (t : TagRules) (n : Nat) (h : n < maxRules) (s : CString) :
    (∃ r, parseTokens host s = .ok r ∧ loadTokens host t n h s = .next (t.set n h r) (n + 1)) ∨
    (∃ code < 0, parseTokens host s = .error code ∧ ∃ t', loadTokens host t n h s = .ret code t') := by
  unfold parseTokens loadTokens
  cases htok : strtok (chr '-') s with
  | none => exact .inr ⟨-7, by decide, rfl, t, rfl⟩
  | some tok =>
    obtain ⟨part, save⟩ := tok
    simp only
    cases hip : ipConverting host part with
    | none => exact .inr ⟨-8, by decide, rfl, t, rfl⟩
    | some left =>
      simp only
      cases hend : rangeEnd host (charCount s (chr '-')) left save with
      | error code => exact .inr ⟨code, rangeEnd_error_neg hend, rfl, _, rfl⟩
      | ok res =>
        obtain ⟨right, save'⟩ := res
        simp only
        cases htag : strtok (chr '-') save' with
        | none => exact .inr ⟨-7, by decide, rfl, _, rfl⟩
        | some tok' =>
          simp only
          cases hconv : tagConverting tok'.1 with
          | none => exact .inr ⟨-9, by decide, rfl, _, rfl⟩
          | some tag =>
            refine .inl ⟨⟨left, right, tag⟩, rfl, ?_⟩
            simp only [set_set]

/-- One pass of the loop. Only the limit depends on the rules before it. -/
inductive PassOf (host : ByteOrder) (t : TagRules) (n : Nat) (piece : List UInt8) :
    Option LineOutcome → Prop
  | undefined (h : parsePiece host piece = .undefined) : PassOf host t n piece none
  | skip (h : parsePiece host piece = .skip) : PassOf host t n piece (some (.next t n))
  | rule {r : TagRule} (hn : n < maxRules) (h : parsePiece host piece = .rule r) :
      PassOf host t n piece (some (.next (t.set n hn r) (n + 1)))
  | full {r : TagRule} (hn : ¬ n < maxRules) (h : parsePiece host piece = .rule r) :
      PassOf host t n piece (some (.ret (-6) t))
  | fail {code code' : Int} {t' : TagRules} (h : parsePiece host piece = .fail code)
      (neg : code' < 0) : PassOf host t n piece (some (.ret code' t'))

theorem loadLine_pass (host : ByteOrder) (t : TagRules) (n : Nat) (piece : List UInt8) :
    PassOf host t n piece (loadLine host t n (lineBuffer piece)) := by
  unfold loadLine
  cases hedit : lineEditor (lineBuffer piece) with
  | none => exact .undefined (by simp only [parsePiece, hedit])
  | some realStart =>
    have hp : parsePiece host piece = parseText host (cstr realStart) := by
      simp only [parsePiece, hedit]
    simp only [Option.map_some, loadText]
    unfold parseText at hp
    split_ifs at hp ⊢ with hskip hdash hn
    · exact .skip hp
    · exact .fail hp (by decide)
    · rcases loadTokens_eq host t n hn (cstr realStart) with ⟨r, hr, hl⟩ | ⟨code, hc, hr, t', hl⟩
      · rw [hl]
        exact .rule hn (by rw [hp, hr])
      · rw [hl]
        exact .fail (by rw [hp, hr]) hc
    · -- the limit is tested before the tokens are read
      cases hr : parseTokens host (cstr realStart) with
      | ok r => exact .full hn (by rw [hp, hr])
      | error code => exact .fail (by rw [hp, hr]) (by decide)

/-! ## The loop -/

theorem rulesOf_cons (host : ByteOrder) (piece : List UInt8) (rest : List (List UInt8)) :
    rulesOf host (piece :: rest) = (ruleOf host piece).toList ++ rulesOf host rest := by
  rw [rulesOf, List.filterMap_cons]
  cases ruleOf host piece <;> rfl

theorem rulesOf_skip {host : ByteOrder} {piece : List UInt8} (h : parsePiece host piece = .skip)
    (rest : List (List UInt8)) : rulesOf host (piece :: rest) = rulesOf host rest := by
  simp [rulesOf, ruleOf, h]

theorem rulesOf_rule {host : ByteOrder} {piece : List UInt8} {r : TagRule}
    (h : parsePiece host piece = .rule r) (rest : List (List UInt8)) :
    rulesOf host (piece :: rest) = r :: rulesOf host rest := by
  simp [rulesOf, ruleOf, h]

theorem take_set (t : TagRules) {n : Nat} (h : n < maxRules) (r : TagRule) :
    (t.set n h r).rules.toList.take (n + 1) = t.rules.toList.take n ++ [r] := by
  have hlen : n < t.rules.toList.length := by simpa using h
  have hset : (t.set n h r).rules.toList = t.rules.toList.set n r := Vector.toList_set h
  rw [hset, List.take_succ_eq_append_getElem (by simpa using h), List.getElem_set_self,
    List.take_set_of_le (Nat.le_refl n)]

/-- A loop that runs to the end of the file has seen only pieces that parse, and has
stored their rules in file order. -/
theorem loadLoop_next {host : ByteOrder} {lines : List (List UInt8)} {t t' : TagRules} {n n' : Nat}
    (hn : n ≤ maxRules) (h : loadLoop host t n lines = some (.next t' n')) :
    (∀ piece ∈ lines, Parses host piece) ∧ n' = n + (rulesOf host lines).length ∧ n' ≤ maxRules ∧
      t'.rules.toList.take n' = t.rules.toList.take n ++ rulesOf host lines := by
  induction lines generalizing t n with
  | nil =>
    cases h
    exact ⟨by simp, rfl, hn, by simp [rulesOf]⟩
  | cons piece rest ih =>
    rw [loadLoop] at h
    have hpass := loadLine_pass host t n piece
    generalize loadLine host t n (lineBuffer piece) = out at h hpass
    cases hpass with
    | undefined hp => cases h
    | full hlim hp => cases h
    | fail hp neg => cases h
    | skip hp =>
      obtain ⟨hall, hlen, hle, hrules⟩ := ih hn h
      refine ⟨List.forall_mem_cons.mpr ⟨.inl hp, hall⟩, ?_, hle, ?_⟩
      · rw [rulesOf_skip hp, hlen]
      · rw [rulesOf_skip hp, hrules]
    | @rule r hlt hp =>
      obtain ⟨hall, hlen, hle, hrules⟩ := ih hlt h
      refine ⟨List.forall_mem_cons.mpr ⟨.inr ⟨r, hp⟩, hall⟩, ?_, hle, ?_⟩
      · rw [rulesOf_rule hp, hlen, List.length_cons]
        omega
      · rw [rulesOf_rule hp, hrules, take_set, List.append_assoc, List.singleton_append]

/-- Pieces that all parse are read to the end, unless there are too many rules. -/
theorem loadLoop_parses {host : ByteOrder} {lines : List (List UInt8)} (t : TagRules) {n : Nat}
    (hn : n ≤ maxRules) (h : ∀ piece ∈ lines, Parses host piece) :
    (n + (rulesOf host lines).length ≤ maxRules ∧ ∃ t' n', loadLoop host t n lines = some (.next t' n')) ∨
    (maxRules < n + (rulesOf host lines).length ∧ ∃ t', loadLoop host t n lines = some (.ret (-6) t')) := by
  induction lines generalizing t n with
  | nil => exact .inl ⟨by simpa [rulesOf] using hn, t, n, rfl⟩
  | cons piece rest ih =>
    obtain ⟨hfirst, hall⟩ := List.forall_mem_cons.mp h
    rw [loadLoop]
    have hpass := loadLine_pass host t n piece
    generalize loadLine host t n (lineBuffer piece) = out at hpass
    cases hpass with
    | undefined hp => rcases hfirst with hs | ⟨r, hr⟩ <;> simp_all
    | fail hp neg => rcases hfirst with hs | ⟨r, hr⟩ <;> simp_all
    | skip hp =>
      rw [rulesOf_skip hp]
      exact ih t hn hall
    | @full r hlim hp =>
      refine .inr ⟨?_, t, rfl⟩
      rw [rulesOf_rule hp, List.length_cons]
      omega
    | @rule r hlt hp =>
      rw [rulesOf_rule hp, List.length_cons, show n + ((rulesOf host rest).length + 1) =
        n + 1 + (rulesOf host rest).length by omega]
      exact ih (t.set n hlt r) hlt hall

theorem loadLoop_ret_neg {host : ByteOrder} {lines : List (List UInt8)} {t t' : TagRules} {n : Nat}
    {code : Int} (h : loadLoop host t n lines = some (.ret code t')) : code < 0 := by
  induction lines generalizing t n with
  | nil => cases h
  | cons piece rest ih =>
    rw [loadLoop] at h
    have hpass := loadLine_pass host t n piece
    generalize loadLine host t n (lineBuffer piece) = out at h hpass
    cases hpass with
    | undefined hp => cases h
    | full hlim hp => cases h; decide
    | fail hp neg => cases h; exact neg
    | skip hp => exact ih h
    | rule hlt hp => exact ih h

/-! ## The size during the load -/

def LineOutcome.rules : LineOutcome → TagRules
  | .next t _ => t
  | .ret _ t => t

theorem size_loadTokens {host : ByteOrder} {t : TagRules} {n : Nat} (h : n < maxRules) (s : CString) :
    (loadTokens host t n h s).rules.size = t.size := by
  unfold loadTokens
  cases strtok (chr '-') s with
  | none => rfl
  | some token =>
    simp only
    cases ipConverting host token.1 with
    | none => rfl
    | some left =>
      simp only
      cases rangeEnd host (charCount s (chr '-')) left token.2 with
      | error code => rfl
      | ok rest =>
        simp only
        cases strtok (chr '-') rest.2 with
        | none => rfl
        | some tag =>
          simp only
          cases tagConverting tag.1 <;> rfl

theorem size_loadText {host : ByteOrder} {t : TagRules} {n : Nat} (s : CString) :
    (loadText host t n s).rules.size = t.size := by
  unfold loadText
  split
  · rfl
  split
  · rfl
  split
  · exact size_loadTokens _ s
  · rfl

/-- The line loop never sets the size. -/
theorem size_loadLoop {host : ByteOrder} {t : TagRules} {n : Nat} {lines : List (List UInt8)}
    {out : LineOutcome} (h : loadLoop host t n lines = some out) : out.rules.size = t.size := by
  induction lines generalizing t n with
  | nil =>
    cases h
    rfl
  | cons piece rest ih =>
    rw [loadLoop, loadLine] at h
    cases hedit : lineEditor (lineBuffer piece) with
    | none =>
      rw [hedit] at h
      cases h
    | some realStart =>
      have hsize := @size_loadText host t n (cstr realStart)
      rw [hedit, Option.map_some] at h
      cases htext : loadText host t n (cstr realStart) with
      | ret code t₁ =>
        rw [htext] at h hsize
        cases h
        exact hsize
      | next t₁ n₁ =>
        rw [htext] at h hsize
        exact (ih h).trans hsize

end VlanTagger.ConfigParser
