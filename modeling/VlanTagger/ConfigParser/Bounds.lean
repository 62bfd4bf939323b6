import VlanTagger.ConfigParser.Lines
import VlanTagger.Lib.Access

/-!
# What the loader touches of the line buffer

`line_editor`, `char_count` and the token splitting once more, with pointers into the
array as indices and every index that is read or written. Without these reports they are
the functions of the model. The window of `line_editor` is the only place where the end
of the array can be passed: it does not stop at the terminator.
-/
namespace VlanTagger.ConfigParser

open Lib Lib.CString Lib.Traced

/-! ## The functions on indices -/

/-- `strlen` reads up to the terminator. -/
def strlenTraced (rule : List UInt8) (start : Nat) : Traced Nat Nat := do
  let n := (cstr (rule.drop start)).length
  touch id start (n + 1)
  return n

/-- The first loop of `line_editor` with `n` passes left: the index `string` ends up at. -/
def skipBlanksTraced (rule : List UInt8) : Nat → Nat → Traced Nat Nat
  | 0, _ => return 0
  | n + 1, i => do
    let len ← strlenTraced rule 0
    if i < len then
      touch id i 1
      if isBlank (rule.getD i 0) then skipBlanksTraced rule n (i + 1) else return i
    else return 0

/-- The second loop, with `string` at `start`. -/
def cutStringTraced (rule : List UInt8) (start : Nat) : Nat → Nat → Traced Nat (Option (List UInt8))
  | 0, _ => return some rule
  | n + 1, j => do
    touch id (start + j) 1
    match rule[start + j]? with
    | none => return none
    | some c =>
      if isCut c then
        touch id (start + j) 1
        return some (rule.set (start + j) 0)
      else cutStringTraced rule start n (j + 1)

/-- The pointer that is returned, and the array. -/
def lineEditorTraced (rule : List UInt8) : Traced Nat (Option (Nat × List UInt8)) := do
  let start ← skipBlanksTraced rule maxLineLength 0
  touch id start 1
  if (rule.drop start).head? = some (chr '#') then return some (start, rule)
  else
    let edited ← cutStringTraced rule start maxRuleContentLength 0
    return edited.map fun rule => (start, rule)

/-- `char_count` on the string at `start`, with `n` passes left. -/
def charCountTraced (rule : List UInt8) (start : Nat) (symbol : UInt8) : Nat → Nat → Traced Nat Nat
  | 0, _ => return 0
  | n + 1, i => do
    let len ← strlenTraced rule start
    if i < len then
      touch id (start + i) 1
      let count ← charCountTraced rule start symbol n (i + 1)
      return (if rule.getD (start + i) 0 = symbol then count + 1 else count)
    else return 0

/-- `strtok_r` on the string at `start`: the token, `saveptr` and the array with the
delimiter behind the token overwritten. -/
def strtokTraced (rule : List UInt8) (start : Nat) (delim : UInt8) :
    Traced Nat (Option (Nat × Nat × List UInt8)) := do
  let s := cstr (rule.drop start)
  let token := start + (s.takeWhile (fun c => c = delim)).length
  touch id start (token - start + 1)
  let t := s.dropWhile (fun c => c = delim)
  if t = [] then return none
  else
    let behind := token + (t.takeWhile (fun c => c ≠ delim)).length
    touch id token (behind - token + 1)
    if t.dropWhile (fun c => c ≠ delim) = [] then return some (token, behind, rule)
    else
      touch id behind 1
      return some (token, behind + 1, rule.set behind 0)

def rangeEndTraced (host : ByteOrder) (dashCount : Nat) (left : UInt32) (rule : List UInt8)
    (saveptr : Nat) : Traced Nat (Except Int (UInt32 × Nat × List UInt8)) := do
  if dashCount = 1 then return .ok (left, saveptr, rule)
  else
    match ← strtokTraced rule saveptr (chr '-') with
    | none => return .error (-7)
    | some (rulePart, saveptr, rule) =>
      match ipConverting host (cstr (rule.drop rulePart)) with
      | none => return .error (-8)
      | some right => return .ok (right, saveptr, rule)

def loadTokensTraced (host : ByteOrder) (t : TagRules) (loadedCount : Nat) (h : loadedCount < maxRules)
    (dashCount : Nat) (rule : List UInt8) (start : Nat) : Traced Nat LineOutcome := do
  let r := t.rules[loadedCount]
  match ← strtokTraced rule start (chr '-') with
  | none => return .ret (-7) t
  | some (rulePart, saveptr, rule) =>
    match ipConverting host (cstr (rule.drop rulePart)) with
    | none => return .ret (-8) t
    | some left =>
      let t := t.set loadedCount h { r with ipLeft := left }
      match ← rangeEndTraced host dashCount left rule saveptr with
      | .error code => return .ret code t
      | .ok (right, saveptr, rule) =>
        let t := t.set loadedCount h { r with ipLeft := left, ipRight := right }
        match ← strtokTraced rule saveptr (chr '-') with
        | none => return .ret (-7) t
        | some (rulePart, _, rule) =>
          match tagConverting (cstr (rule.drop rulePart)) with
          | none => return .ret (-9) t
          | some tag => return .next (t.set loadedCount h ⟨left, right, tag⟩) (loadedCount + 1)

/-- One pass of the line loop on the array that `fgets` filled. -/
def loadLineTraced (host : ByteOrder) (t : TagRules) (loadedCount : Nat) (rule : List UInt8) :
    Traced Nat (Option LineOutcome) := do
  match ← lineEditorTraced rule with
  | none => return none
  | some (realStart, rule) =>
    touch id realStart 1
    if Skipped (cstr (rule.drop realStart)) then return some (.next t loadedCount)
    else
      let dashCount ← charCountTraced rule realStart (chr '-') maxLineLength 0
      if dashCount < 1 ∨ 2 < dashCount then return some (.ret (-5) t)
      else if h : loadedCount < maxRules then
        let outcome ← loadTokensTraced host t loadedCount h dashCount rule realStart
        return some outcome
      else return some (.ret (-6) t)

/-! ## The same program -/

/-- The characters of a string are those of the array. -/
theorem getD_cstr (rule : List UInt8) {start i : Nat} (h : i < (cstr (rule.drop start)).length) :
    rule.getD (start + i) 0 = (cstr (rule.drop start))[i] := by
  have hpre : cstr (rule.drop start) <+: rule.drop start := List.takeWhile_prefix _
  rw [hpre.getElem h, List.getElem_drop, List.getD_eq_getElem?_getD, List.getElem?_eq_getElem,
    Option.getD_some]

theorem value_skipBlanksTraced (rule : List UInt8) {n i : Nat} (hi : i ≤ (cstr rule).length)
    (hn : (cstr rule).length < i + n) :
    (skipBlanksTraced rule n i).value =
      (((cstr rule).drop i).findIdx? (fun c => !isBlank c)).elim 0 (fun k => i + k) := by
  induction n generalizing i with
  | zero => omega
  | succ n ih =>
    rw [skipBlanksTraced, value_bind]
    show (if i < (cstr rule).length then _ else _ : Traced Nat Nat).value = _
    by_cases hlt : i < (cstr rule).length
    · have hget : rule.getD i 0 = (cstr rule)[i] := by
        have hzero := @getD_cstr rule 0 i hlt
        rwa [Nat.zero_add] at hzero
      rw [if_pos hlt, value_bind, List.drop_eq_getElem_cons hlt, List.findIdx?_cons, hget]
      by_cases hb : isBlank (cstr rule)[i] = true
      · simp only [hb, if_true, Bool.not_true, Bool.false_eq_true, if_false]
        rw [ih hlt (by omega)]
        cases ((cstr rule).drop (i + 1)).findIdx? (fun c => !isBlank c) with
        | none => rfl
        | some k =>
          simp only [Option.map_some, Option.elim]
          omega
      · simp only [hb, if_false, Bool.not_false, if_true, value_pure, Option.elim, Nat.add_zero,
          Bool.false_eq_true]
    · have hnil : (cstr rule).drop i = [] := List.drop_eq_nil_iff.mpr (Nat.not_lt.mp hlt)
      rw [if_neg hlt, hnil]
      rfl

theorem value_skipBlanks (rule : List UInt8) (hlen : (cstr rule).length < maxLineLength) :
    rule.drop (skipBlanksTraced rule maxLineLength 0).value = skipBlanks rule := by
  rw [value_skipBlanksTraced rule (Nat.zero_le _) (by omega), List.drop_zero, skipBlanks]
  cases (cstr rule).findIdx? (fun c => !isBlank c) with
  | none => rfl
  | some k => simp only [Option.elim, Nat.zero_add]

theorem value_cutStringTraced (rule : List UInt8) (start n j : Nat) :
    (cutStringTraced rule start n j).value.map (fun rule => rule.drop start) =
      cutString n j (rule.drop start) := by
  induction n generalizing j with
  | zero => rfl
  | succ n ih =>
    rw [cutStringTraced, cutString, value_bind, List.getElem?_drop]
    cases rule[start + j]? with
    | none => rfl
    | some c =>
      simp only
      by_cases hc : isCut c = true
      · simp only [hc, if_true, value_bind, value_pure, Option.map_some]
        rw [List.drop_set, if_neg (by omega), Nat.add_sub_cancel_left]
      · rw [if_neg hc, if_neg hc, ih]

theorem value_lineEditorTraced (rule : List UInt8) (hlen : (cstr rule).length < maxLineLength) :
    (lineEditorTraced rule).value.map (fun r => r.2.drop r.1) = lineEditor rule := by
  rw [lineEditorTraced, lineEditor, ← value_skipBlanks rule hlen]
  simp only [value_bind]
  generalize (skipBlanksTraced rule maxLineLength 0).value = start
  by_cases hh : (rule.drop start).head? = some (chr '#')
  · simp only [hh, if_true, value_pure, Option.map_some]
  · simp only [hh, if_false, value_bind, value_pure, Option.map_map]
    exact value_cutStringTraced rule start maxRuleContentLength 0

theorem value_charCountTraced (rule : List UInt8) (start : Nat) (symbol : UInt8) {n i : Nat}
    (hn : (cstr (rule.drop start)).length < i + n) :
    (charCountTraced rule start symbol n i).value = charCount ((cstr (rule.drop start)).drop i) symbol := by
  induction n generalizing i with
  | zero =>
    rw [List.drop_eq_nil_of_le (by omega)]
    rfl
  | succ n ih =>
    rw [charCountTraced, value_bind]
    show (if i < (cstr (rule.drop start)).length then _ else _ : Traced Nat Nat).value = _
    by_cases hlt : i < (cstr (rule.drop start)).length
    · rw [if_pos hlt, List.drop_eq_getElem_cons hlt]
      simp only [value_bind, value_pure, getD_cstr rule hlt, ih (i := i + 1) (by omega), charCount, List.countP_cons,
        decide_eq_true_eq]
      split <;> rfl
    · rw [if_neg hlt, List.drop_eq_nil_of_le (Nat.not_lt.mp hlt)]
      rfl

/-! ## Strings inside the array -/

/-- The array with a terminator in its last place, as every `fgets` leaves it. -/
structure Terminated (rule : List UInt8) : Prop where
  length_eq : rule.length = maxLineLength
  last : rule[maxLineLength - 1]? = some 0

abbrev InLine (i : Nat) : Prop := i < maxLineLength

section

variable {rule : List UInt8} {start : Nat}

theorem terminated_lineBuffer {piece : List UInt8} (h : piece.length < maxLineLength) :
    Terminated (lineBuffer piece) := by
  constructor
  · rw [lineBuffer, List.length_append, List.length_replicate]
    omega
  · rw [lineBuffer, List.getElem?_append_right (by omega), List.getElem?_replicate, if_pos (by omega)]

theorem Terminated.set (h : Terminated rule) (i : Nat) : Terminated (rule.set i 0) := by
  have hlen := h.length_eq
  have hmax : 0 < maxLineLength := by decide
  refine ⟨by rw [List.length_set, hlen], ?_⟩
  rw [List.getElem?_set]
  split
  · rw [if_pos (by omega)]
  · exact h.last

/-- A string that starts in the array ends in it. -/
theorem Terminated.length_cstr (h : Terminated rule) (hs : start < maxLineLength) :
    start + (cstr (rule.drop start)).length < maxLineLength := by
  have hlen := h.length_eq
  have hpre : cstr (rule.drop start) <+: rule.drop start := List.takeWhile_prefix _
  have hle := hpre.length_le
  rw [List.length_drop] at hle
  by_contra hlong
  -- the string would contain the terminator
  have hlast : maxLineLength - 1 - start < (cstr (rule.drop start)).length := by omega
  have hget := hpre.getElem hlast
  rw [List.getElem_drop] at hget
  have hzero := h.last
  rw [List.getElem?_eq_getElem (by omega), Option.some_inj] at hzero
  refine ne_zero_of_mem_cstr (List.getElem_mem hlast) (hget.trans ?_)
  rw [← hzero]
  congr 1
  omega

theorem Terminated.drop_eq (h : Terminated rule) (hs : start < maxLineLength) :
    ∃ zs, rule.drop start = cstr (rule.drop start) ++ 0 :: zs := by
  have hin := h.length_cstr hs
  exact eq_cstr_append (by rw [List.length_drop, h.length_eq]; omega)

theorem within_strlenTraced (h : Terminated rule) (hs : start < maxLineLength) :
    Within InLine (strlenTraced rule start) := by
  have hin := h.length_cstr hs
  rw [strlenTraced, within_bind, within_touch]
  exact ⟨fun i _ hi => by unfold id InLine; omega, within_pure _⟩

theorem within_touch_one (h : start < maxLineLength) : Within InLine (touch id start 1) := by
  rw [within_touch]
  intro i hlow hhigh
  unfold id InLine
  omega

theorem within_skipBlanksTraced (h : Terminated rule) (n i : Nat) :
    Within InLine (skipBlanksTraced rule n i) := by
  have hin := @Terminated.length_cstr rule 0 h (by decide)
  induction n generalizing i with
  | zero => exact within_pure _
  | succ n ih =>
    rw [skipBlanksTraced, within_bind]
    refine ⟨within_strlenTraced h (by decide), ?_⟩
    show Within InLine (if i < (cstr rule).length then _ else _ : Traced Nat Nat)
    split
    next hlt =>
      rw [within_bind]
      refine ⟨within_touch_one (by rw [List.drop_zero] at hin; omega), ?_⟩
      split
      · exact ih (i + 1)
      · exact within_pure _
    · exact within_pure _

/-- The first loop ends inside the array. -/
theorem value_skipBlanksTraced_lt (h : Terminated rule) :
    (skipBlanksTraced rule maxLineLength 0).value < maxLineLength := by
  have hin : (cstr rule).length < maxLineLength := by
    have hzero := @Terminated.length_cstr rule 0 h (by decide)
    rwa [Nat.zero_add] at hzero
  rw [value_skipBlanksTraced rule (Nat.zero_le _) (by omega)]
  cases hfind : ((cstr rule).drop 0).findIdx? (fun c => !isBlank c) with
  | none => exact (by decide : 0 < maxLineLength)
  | some k =>
    have hk := (List.findIdx?_eq_some_iff_findIdx_eq.mp hfind).1
    rw [List.length_drop] at hk
    simp only [Option.elim]
    omega

theorem within_charCountTraced (h : Terminated rule) (hs : start < maxLineLength) (symbol : UInt8)
    (n i : Nat) : Within InLine (charCountTraced rule start symbol n i) := by
  have hin := h.length_cstr hs
  induction n generalizing i with
  | zero => exact within_pure _
  | succ n ih =>
    rw [charCountTraced, within_bind]
    refine ⟨within_strlenTraced h hs, ?_⟩
    show Within InLine (if i < (cstr (rule.drop start)).length then _ else _ : Traced Nat Nat)
    split
    next hlt =>
      rw [within_bind, within_bind]
      exact ⟨within_touch_one (by omega), ih (i + 1), within_pure _⟩
    · exact within_pure _

/-- The window stays in the array exactly when it finds a cut there or is left before. -/
theorem within_cutStringTraced (h : rule.length = maxLineLength) (n j : Nat) :
    Within InLine (cutStringTraced rule start n j) ↔ cutString n j (rule.drop start) ≠ none := by
  induction n generalizing j with
  | zero => simp only [cutStringTraced, cutString, within_pure, ne_eq, reduceCtorEq, not_false_eq_true]
  | succ n ih =>
    rw [cutStringTraced, cutString, within_bind, List.getElem?_drop]
    cases hget : rule[start + j]? with
    | none =>
      have hout := List.getElem?_eq_none_iff.mp hget
      simp only [ne_eq, not_true_eq_false, iff_false, not_and, within_touch]
      intro htouch
      have hlast : start + j < maxLineLength := htouch _ (Nat.le_refl _) (Nat.lt_succ_self _)
      omega
    | some c =>
      obtain ⟨hlt, -⟩ := List.getElem?_eq_some_iff.mp hget
      have htouch : Within InLine (touch id (start + j) 1) := within_touch_one (by omega)
      simp only [htouch, true_and]
      by_cases hc : isCut c = true
      · simp only [hc, if_true, within_bind, htouch, within_pure, and_self, ne_eq, reduceCtorEq,
          not_false_eq_true]
      · simp only [hc, if_false, Bool.false_eq_true]
        exact ih (j + 1)

theorem terminated_of_cut (h : Terminated rule) {n j : Nat} {rule' : List UInt8}
    (hcut : (cutStringTraced rule start n j).value = some rule') : Terminated rule' := by
  induction n generalizing j with
  | zero =>
    cases hcut
    exact h
  | succ n ih =>
    rw [cutStringTraced, value_bind] at hcut
    cases hget : rule[start + j]? with
    | none =>
      rw [hget] at hcut
      cases hcut
    | some c =>
      rw [hget] at hcut
      simp only at hcut
      split at hcut
      · cases hcut
        exact h.set _
      · exact ih hcut

/-! ## Tokens -/

/-- `strtok_r` stays inside the string and leaves the array terminated; the token and the
string behind `saveptr` are those of the list function. -/
theorem strtokTraced_spec (h : Terminated rule) (hs : start < maxLineLength) (delim : UInt8) :
    Within InLine (strtokTraced rule start delim) ∧
      match (strtokTraced rule start delim).value with
      | none => strtok delim (cstr (rule.drop start)) = none
      | some (token, saveptr, rule') => Terminated rule' ∧ saveptr < maxLineLength ∧
          strtok delim (cstr (rule.drop start)) =
            some (cstr (rule'.drop token), cstr (rule'.drop saveptr)) := by
  have hin := h.length_cstr hs
  obtain ⟨zs, hmem⟩ := h.drop_eq hs
  have hnul : ∀ c ∈ cstr (rule.drop start), c ≠ 0 := fun c hc => ne_zero_of_mem_cstr hc
  unfold strtokTraced strtok
  simp only [within_bind, value_bind]
  generalize cstr (rule.drop start) = s at hin hmem hnul ⊢
  -- the string in three parts: leading delimiters, the token, and what is behind it
  have hlead := (List.takeWhile_append_dropWhile (p := fun c => decide (c = delim)) (l := s)).symm
  generalize s.takeWhile (fun c => decide (c = delim)) = lead at hlead ⊢
  generalize s.dropWhile (fun c => decide (c = delim)) = t at hlead ⊢
  have htoken := (List.takeWhile_append_dropWhile (p := fun c => decide (c ≠ delim)) (l := t)).symm
  generalize t.takeWhile (fun c => decide (c ≠ delim)) = tok at htoken ⊢
  generalize t.dropWhile (fun c => decide (c ≠ delim)) = post at htoken ⊢
  have hlen : s.length = lead.length + t.length := by rw [hlead, List.length_append]
  have htlen : t.length = tok.length + post.length := by rw [htoken, List.length_append]
  have hstart : Within InLine (touch id start (start + lead.length - start + 1)) := by
    rw [within_touch]
    intro i hlow hhigh
    unfold id InLine
    omega
  have hscan : Within InLine
      (touch id (start + lead.length) (start + lead.length + tok.length - (start + lead.length) + 1)) := by
    rw [within_touch]
    intro i hlow hhigh
    unfold id InLine
    omega
  have htmem : rule.drop (start + lead.length) = t ++ 0 :: zs := by
    rw [← List.drop_drop, hmem, hlead, List.append_assoc, List.drop_left]
  have htnul : ∀ c ∈ t, c ≠ 0 := fun c hc => hnul c (by rw [hlead]; exact List.mem_append_right _ hc)
  simp only [hstart, true_and]
  by_cases ht : t = []
  · simp only [ht, if_true, within_pure, value_pure, and_self]
  · simp only [ht, if_false, within_bind, value_bind, hscan, true_and]
    cases post with
    | nil =>
      have htok : t = tok := by rw [htoken, List.append_nil]
      have hbehind : rule.drop (start + lead.length + tok.length) = [] ++ 0 :: zs := by
        rw [← List.drop_drop, htmem, htok, List.drop_left, List.nil_append]
      simp only [if_true, within_pure, value_pure, true_and, List.tail_nil]
      refine ⟨h, by omega, ?_⟩
      rw [htmem, hbehind, cstr_append_zero htnul, cstr_append_zero (List.forall_mem_nil _), htok]
    | cons d tl =>
      have hnuls : ∀ c ∈ tok ++ d :: tl, c ≠ 0 := htoken ▸ htnul
      have hbehind : rule.drop (start + lead.length + tok.length + 1) = tl ++ 0 :: zs := by
        rw [Nat.add_assoc, ← List.drop_drop, htmem, htoken, List.append_assoc, List.cons_append,
          ← List.drop_drop, List.drop_left, List.drop_succ_cons, List.drop_zero]
      have hcut : (rule.set (start + lead.length + tok.length) 0).drop (start + lead.length) =
          tok ++ 0 :: (tl ++ 0 :: zs) := by
        rw [List.drop_set, if_neg (by omega), Nat.add_sub_cancel_left, htmem, htoken, List.append_assoc,
          List.set_append_right _ _ (Nat.le_refl _), Nat.sub_self, List.cons_append, List.set_cons_zero]
      have hrest : (rule.set (start + lead.length + tok.length) 0).drop
          (start + lead.length + tok.length + 1) = tl ++ 0 :: zs := by
        rw [List.drop_set, if_pos (Nat.lt_succ_self _), hbehind]
      rw [List.length_cons] at htlen
      have hwrite : Within InLine (touch id (start + lead.length + tok.length) 1) :=
        within_touch_one (by omega)
      simp only [reduceCtorEq, if_false, within_bind, within_pure, value_bind, value_pure, hwrite, and_true,
        true_and, List.tail_cons]
      refine ⟨h.set _, by omega, ?_⟩
      rw [hcut, hrest, cstr_append_zero fun c hc => hnuls c (List.mem_append_left _ hc),
        cstr_append_zero fun c hc => hnuls c (List.mem_append_right _ (List.mem_cons_of_mem _ hc))]

theorem rangeEndTraced_spec (host : ByteOrder) (dashCount : Nat) (left : UInt32) (h : Terminated rule)
    (hs : start < maxLineLength) :
    Within InLine (rangeEndTraced host dashCount left rule start) ∧
      match (rangeEndTraced host dashCount left rule start).value with
      | .error code => rangeEnd host dashCount left (cstr (rule.drop start)) = .error code
      | .ok (right, saveptr, rule') => Terminated rule' ∧ saveptr < maxLineLength ∧
          rangeEnd host dashCount left (cstr (rule.drop start)) =
            .ok (right, cstr (rule'.drop saveptr)) := by
  unfold rangeEndTraced rangeEnd
  by_cases hone : dashCount = 1
  · simp only [hone, if_true, within_pure, value_pure, true_and, and_true]
    exact ⟨h, hs⟩
  obtain ⟨hwithin, htok⟩ := strtokTraced_spec h hs (chr '-')
  simp only [hone, if_false, within_bind, value_bind, hwithin, true_and]
  cases hvalue : (strtokTraced rule start (chr '-')).value with
  | none =>
    rw [hvalue] at htok
    simp only [htok, within_pure, value_pure, and_self]
  | some res =>
    obtain ⟨token, saveptr, rule'⟩ := res
    rw [hvalue] at htok
    obtain ⟨hterm, hsave, heq⟩ := htok
    simp only [heq]
    cases hip : ipConverting host (cstr (rule'.drop token)) with
    | none => simp only [within_pure, value_pure, and_self]
    | some right =>
      simp only [within_pure, value_pure, true_and, and_true]
      exact ⟨hterm, hsave⟩

/-- The tokens are split inside the array, and they are those of the string. -/
theorem loadTokensTraced_spec (host : ByteOrder) (t : TagRules) {loadedCount : Nat}
    (hn : loadedCount < maxRules) (h : Terminated rule) (hs : start < maxLineLength) :
    Within InLine (loadTokensTraced host t loadedCount hn (charCount (cstr (rule.drop start)) (chr '-'))
        rule start) ∧
      (loadTokensTraced host t loadedCount hn (charCount (cstr (rule.drop start)) (chr '-')) rule
        start).value = loadTokens host t loadedCount hn (cstr (rule.drop start)) := by
  unfold loadTokensTraced loadTokens
  obtain ⟨hwithin, htok⟩ := strtokTraced_spec h hs (chr '-')
  simp only [within_bind, value_bind, hwithin, true_and]
  cases hvalue : (strtokTraced rule start (chr '-')).value with
  | none =>
    rw [hvalue] at htok
    simp only [htok, within_pure, value_pure, and_self]
  | some res =>
    obtain ⟨token, saveptr, rule'⟩ := res
    rw [hvalue] at htok
    obtain ⟨hterm, hsave, heq⟩ := htok
    simp only [heq]
    cases hip : ipConverting host (cstr (rule'.drop token)) with
    | none => simp only [within_pure, value_pure, and_self]
    | some left =>
      simp only [within_bind, value_bind]
      obtain ⟨hwithin', hend⟩ := rangeEndTraced_spec host (charCount (cstr (rule.drop start)) (chr '-'))
        left hterm hsave
      simp only [hwithin', true_and]
      cases hvalue' : (rangeEndTraced host (charCount (cstr (rule.drop start)) (chr '-')) left rule'
          saveptr).value with
      | error code =>
        rw [hvalue'] at hend
        simp only [hend, within_pure, value_pure, and_self]
      | ok res' =>
        obtain ⟨right, saveptr', rule''⟩ := res'
        rw [hvalue'] at hend
        obtain ⟨hterm', hsave', heq'⟩ := hend
        obtain ⟨hwithin'', htok'⟩ := strtokTraced_spec hterm' hsave' (chr '-')
        simp only [heq', within_bind, value_bind, hwithin'', true_and]
        cases hvalue'' : (strtokTraced rule'' saveptr' (chr '-')).value with
        | none =>
          rw [hvalue''] at htok'
          simp only [htok', within_pure, value_pure, and_self]
        | some res'' =>
          rw [hvalue''] at htok'
          simp only [htok'.2.2]
          cases hconv : tagConverting (cstr (res''.2.2.drop res''.1)) with
          | none => simp only [within_pure, value_pure, and_self]
          | some tag => simp only [within_pure, value_pure, and_self]

/-! ## One pass of the line loop -/

/-- `line_editor` leaves the array exactly where the model has no result, and else returns
a pointer into the array. -/
theorem lineEditorTraced_spec (h : Terminated rule) :
    (Within InLine (lineEditorTraced rule) ↔ lineEditor rule ≠ none) ∧
      match (lineEditorTraced rule).value with
      | none => lineEditor rule = none
      | some (realStart, rule') => Terminated rule' ∧ realStart < maxLineLength ∧
          lineEditor rule = some (rule'.drop realStart) := by
  have hin : (cstr rule).length < maxLineLength := by
    have hzero := @Terminated.length_cstr rule 0 h (by decide)
    rwa [Nat.zero_add] at hzero
  have hvalue := value_lineEditorTraced rule hin
  have hstart := value_skipBlanksTraced_lt h
  have hskip := within_skipBlanksTraced h maxLineLength 0
  rw [← hvalue]
  unfold lineEditorTraced
  simp only [within_bind, value_bind, hskip, true_and]
  generalize (skipBlanksTraced rule maxLineLength 0).value = start at hstart ⊢
  simp only [within_touch_one hstart, true_and]
  by_cases hh : (rule.drop start).head? = some (chr '#')
  · simp only [hh, if_true, within_pure, value_pure, Option.map_some, true_iff, and_true]
    exact ⟨by simp, h, hstart⟩
  · simp only [hh, if_false, within_bind, value_bind, within_pure, value_pure, and_true, Option.map_map]
    rw [within_cutStringTraced h.length_eq, ← value_cutStringTraced]
    refine ⟨by simp only [ne_eq, Option.map_eq_none_iff], ?_⟩
    cases hcut : (cutStringTraced rule start maxRuleContentLength 0).value with
    | none => simp only [Option.map_none]
    | some rule' =>
      simp only [Option.map_some, Function.comp_apply, and_true]
      exact ⟨terminated_of_cut h hcut, hstart⟩

/-- The pass leaves the array where `line_editor` does, and is the pass of the model. -/
theorem loadLineTraced_spec (host : ByteOrder) (t : TagRules) (loadedCount : Nat) (h : Terminated rule) :
    (Within InLine (loadLineTraced host t loadedCount rule) ↔ lineEditor rule ≠ none) ∧
      (loadLineTraced host t loadedCount rule).value = loadLine host t loadedCount rule := by
  obtain ⟨hwithin, hedit⟩ := lineEditorTraced_spec h
  unfold loadLineTraced loadLine
  simp only [within_bind, value_bind, hwithin]
  cases hvalue : (lineEditorTraced rule).value with
  | none =>
    rw [hvalue] at hedit
    simp only [hedit, within_pure, value_pure, Option.map_none, and_true]
  | some res =>
    obtain ⟨realStart, rule'⟩ := res
    rw [hvalue] at hedit
    obtain ⟨hterm, hstart, heq⟩ := hedit
    have hcount : (charCountTraced rule' realStart (chr '-') maxLineLength 0).value =
        charCount (cstr (rule'.drop realStart)) (chr '-') := by
      have hlen := hterm.length_cstr hstart
      rw [value_charCountTraced rule' realStart _ (by omega), List.drop_zero]
    have hcounting := within_charCountTraced hterm hstart (chr '-') maxLineLength 0
    simp only [heq, within_bind, value_bind, within_touch_one hstart, true_and, Option.map_some, loadText,
      ne_eq, reduceCtorEq, not_false_eq_true, iff_true]
    split
    · exact ⟨within_pure _, rfl⟩
    simp only [within_bind, value_bind, hcounting, true_and, hcount]
    show Within InLine (if BadDashes (cstr (rule'.drop realStart)) then _ else _ : Traced Nat _) ∧
      (if BadDashes (cstr (rule'.drop realStart)) then _ else _ : Traced Nat _).value = _
    split
    · exact ⟨within_pure _, rfl⟩
    split
    next hn =>
      obtain ⟨hwithin', hvalue'⟩ := loadTokensTraced_spec host t hn hterm hstart
      simp only [within_bind, value_bind, within_pure, value_pure, hwithin', hvalue', and_self]
    · exact ⟨within_pure _, rfl⟩

end

/-! ## Which pieces are the trouble -/

/-- The text of the piece starts behind index 63, and nothing from there on ends it. -/
def Overruns (piece : List UInt8) : Prop :=
  ∃ start, (cstr piece).findIdx? (fun c => !isBlank c) = some start ∧ 63 < start ∧
    ∀ c ∈ piece.drop start, isCut c = false

theorem cstr_lineBuffer {piece : List UInt8} (h : piece.length < maxLineLength) :
    cstr (lineBuffer piece) = cstr piece := by
  rw [lineBuffer_eq h, cstr, List.takeWhile_append]
  split
  next hall =>
    have heq := (List.takeWhile_prefix (fun c : UInt8 => decide (c ≠ 0)) (l := piece)).eq_of_length hall
    rw [cstr, heq]
    simp
  · rfl

/-- The window passes the end of the array on these pieces and on no others. -/
theorem lineEditor_eq_none_iff {piece : List UInt8} (h : piece.length < maxLineLength) :
    lineEditor (lineBuffer piece) = none ↔ Overruns piece := by
  have hbuffer : (lineBuffer piece).length = maxLineLength := (terminated_lineBuffer h).length_eq
  have hwindow : maxRuleContentLength + 63 = maxLineLength := rfl
  -- the second loop, on the string at `start`
  have hloop : ∀ start < maxLineLength,
      (if ((lineBuffer piece).drop start).head? = some (chr '#') then some ((lineBuffer piece).drop start)
        else cutString maxRuleContentLength 0 ((lineBuffer piece).drop start)) = none ↔
      63 < start ∧ ∀ c ∈ (lineBuffer piece).drop start, isCut c = false := by
    intro start hstart
    have hlen : ((lineBuffer piece).drop start).length = maxLineLength - start := by
      rw [List.length_drop, hbuffer]
    generalize (lineBuffer piece).drop start = s at hlen ⊢
    have hsplit := (List.takeWhile_append_dropWhile (p := fun c => !isCut c) (l := s)).symm
    have hpre : ∀ c ∈ s.takeWhile (fun c => !isCut c), isCut c = false := fun c hc => by
      simpa using List.mem_takeWhile_imp hc
    have hpost : ∀ c, (s.dropWhile (fun c => !isCut c)).head? = some c → isCut c = true := by
      intro c hc
      have hhead := List.head?_dropWhile_not (fun c => !isCut c) s
      rw [hc] at hhead
      simpa using hhead
    have hall : s.dropWhile (fun c => !isCut c) = [] ↔ ∀ c ∈ s, isCut c = false := by simp
    by_cases hh : s.head? = some (chr '#')
    · have hmem : chr '#' ∈ s := List.mem_of_mem_head? hh
      rw [if_pos hh]
      simp only [reduceCtorEq, false_iff, not_and]
      exact fun _ hcut => absurd (hcut _ hmem) (by decide)
    · have hcut := cutString_append _ _ hpre hpost maxRuleContentLength (Nat.zero_le _)
      rw [← hsplit] at hcut
      rw [if_neg hh, hcut, ← hall]
      have hsum := congrArg List.length hsplit
      rw [List.length_append] at hsum
      split
      next hfits =>
        simp only [reduceCtorEq, false_iff, not_and]
        intro hfar hnil
        rw [hnil, List.length_nil] at hsum
        omega
      next hfits =>
        split
        next hnil =>
          rw [hnil, List.length_nil] at hsum
          simp only [hnil, and_true, true_iff]
          omega
        next hne => simp only [hne, reduceCtorEq, and_false]
  rw [lineEditor, skipBlanks, cstr_lineBuffer h, Overruns]
  cases hfind : (cstr piece).findIdx? (fun c => !isBlank c) with
  | none =>
    have hnone := hloop 0 (by decide)
    rw [List.drop_zero] at hnone
    simp only [hnone, reduceCtorEq, false_and, exists_false, iff_false, not_and]
    exact fun hlt => absurd hlt (by decide)
  | some start =>
    have hlt : start < (cstr piece).length := (List.findIdx?_eq_some_iff_findIdx_eq.mp hfind).1
    have hle : (cstr piece).length ≤ piece.length := (List.takeWhile_prefix _).length_le
    have hzeros : ∀ c ∈ List.replicate (maxLineLength - piece.length) (0 : UInt8), isCut c = false := by
      intro c hc
      rw [(List.mem_replicate.mp hc).2]
      decide
    simp only [Option.some.injEq, exists_eq_left', hloop start (by omega)]
    rw [lineBuffer, List.drop_append_of_le_length (by omega), List.forall_mem_append, and_iff_left hzeros]

/-- The loader touches no index outside the line buffer on a piece, unless the piece is cut
off or lacks its newline and its first word starts behind index 63 and ends it. -/
theorem line_buffer_kept_iff (host : ByteOrder) (t : TagRules) (loadedCount : Nat)
    {content piece : List UInt8} (hpiece : piece ∈ pieces maxLineLength [] content) :
    Within (fun i => i < maxLineLength) (loadLineTraced host t loadedCount (lineBuffer piece)) ↔
      ¬ Overruns piece := by
  have hlen := (length_of_mem_pieces (by decide) hpiece).2
  rw [← lineEditor_eq_none_iff hlen]
  exact (loadLineTraced_spec host t loadedCount (terminated_lineBuffer hlen)).1

theorem line_buffer_kept_rule :
    Within (fun i => i < maxLineLength)
      (loadLineTraced .little .zero 0 (lineBuffer (ofString "10.0.0.1-7"))) :=
  (@line_buffer_kept_iff .little .zero 0 (ofString "10.0.0.1-7") (ofString "10.0.0.1-7")
    (by decide +kernel)).mpr fun ⟨start, hstart, hfar, _⟩ => by
      have hzero : (cstr (ofString "10.0.0.1-7")).findIdx? (fun c => !isBlank c) = some 0 := by decide +kernel
      rw [hzero] at hstart
      cases hstart
      exact absurd hfar (by decide)

/-- 98 blanks and a letter, without a newline. -/
def indented : List UInt8 := List.replicate 98 (chr ' ') ++ [chr 'x']

/-- The window reads the cell behind the array. -/
theorem line_buffer_left :
    pieces maxLineLength [] indented = [indented] ∧
      ¬ Within (fun i => i < maxLineLength) (loadLineTraced .little .zero 0 (lineBuffer indented)) := by
  refine ⟨by decide +kernel, fun hwithin => ?_⟩
  have hnone : lineEditor (lineBuffer indented) = none := by decide +kernel
  have hterm := @terminated_lineBuffer indented (by decide)
  exact (loadLineTraced_spec .little .zero 0 hterm).1.mp hwithin hnone

end VlanTagger.ConfigParser
