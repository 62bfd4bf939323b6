import VlanTagger.ConfigParser.Loop

/-!
# From a line of the file to the text of a rule

`lineEditor` works on the array of 100 characters that `fgets` filled.
`lineText` says what it leaves there in terms of the line alone: the blanks in
front are skipped, and the word behind them counts up to the first blank, tab,
`#` or newline when that is one of its first 37 characters. Lines of at most 98
characters are read one by one.
-/
namespace VlanTagger.ConfigParser

open Lib Lib.CString

/-- The line behind its leading blanks and tabs. -/
def body (piece : List UInt8) : List UInt8 := piece.dropWhile isBlank

/-- The first word of the line. -/
def word (piece : List UInt8) : List UInt8 := (body piece).takeWhile (fun c => !isCut c)

/-- The string that `lineEditor` leaves of a line. -/
def lineText (piece : List UInt8) : CString :=
  if (word piece).length < maxRuleContentLength then word piece else body piece

/-! ## The two loops of `line_editor` -/

theorem isCut_of_isBlank {c : UInt8} (h : isBlank c = true) : isCut c = true := by
  unfold isBlank at h
  unfold isCut
  simp only [decide_eq_true_eq] at h ⊢
  rcases h with h | h
  · exact .inl h
  · exact .inr (.inl h)

/-- The loop stops at the first cut, at the end of the window, or leaves the array. -/
theorem cutString_append (pre post : List UInt8) (hpre : ∀ c ∈ pre, isCut c = false)
    (hpost : ∀ c, post.head? = some c → isCut c = true) (n : Nat) {j : Nat}
    (hj : j ≤ pre.length) :
    cutString n j (pre ++ post) =
      if j + n ≤ pre.length then some (pre ++ post)
      else if post = [] then none
      else some (pre ++ 0 :: post.tail) := by
  induction n generalizing j with
  | zero => rw [cutString, if_pos (by omega)]
  | succ n ih =>
    rw [cutString]
    by_cases hlt : j < pre.length
    · have hget : (pre ++ post)[j]? = some pre[j] := by
        rw [List.getElem?_append_left hlt, List.getElem?_eq_getElem hlt]
      simp only [hget, hpre _ (List.getElem_mem hlt), Bool.false_eq_true, if_false]
      rw [ih hlt, show j + 1 + n = j + (n + 1) by omega]
    · have heq : j = pre.length := by omega
      subst heq
      rw [if_neg (by omega)]
      cases post with
      | nil => simp
      | cons c cs => simp [hpost c rfl]

theorem body_eq_nil_iff {piece : List UInt8} : body piece = [] ↔ ∀ c ∈ piece, isBlank c = true := by
  simp [body]

theorem body_subset (piece : List UInt8) : body piece ⊆ piece :=
  (List.dropWhile_sublist _).subset

theorem word_not_isCut (piece : List UInt8) : ∀ c ∈ word piece, isCut c = false := by
  intro c hc
  simpa using List.mem_takeWhile_imp hc

/-- Behind the first word stands a cut, or nothing. -/
theorem body_eq_word_append (piece : List UInt8) :
    ∃ post, body piece = word piece ++ post ∧ ∀ c, post.head? = some c → isCut c = true := by
  refine ⟨(body piece).dropWhile (fun c => !isCut c), List.takeWhile_append_dropWhile.symm, ?_⟩
  intro c hc
  have hn := List.head?_dropWhile_not (fun c => !isCut c) (body piece)
  rw [hc] at hn
  simpa using hn

theorem lineBuffer_eq {piece : List UInt8} (h : piece.length < maxLineLength) :
    lineBuffer piece =
      piece ++ 0 :: List.replicate (maxLineLength - 1 - piece.length) 0 := by
  rw [lineBuffer, ← List.replicate_succ]
  congr 2
  omega

/-- The first loop moves to the body of the line, if there is one. -/
theorem skipBlanks_append {piece : List UInt8} (hnul : ∀ c ∈ piece, c ≠ 0) (zeros : List UInt8) :
    skipBlanks (piece ++ 0 :: zeros) =
      if body piece = [] then piece ++ 0 :: zeros else body piece ++ 0 :: zeros := by
  unfold skipBlanks
  rw [cstr_append_zero hnul]
  cases hfind : piece.findIdx? (fun c => !isBlank c) with
  | none =>
    have hall : body piece = [] := by
      rw [body_eq_nil_iff]
      simpa [List.findIdx?_eq_none_iff] using hfind
    rw [if_pos hall]
  | some i =>
    have hidx : piece.findIdx (fun c => !isBlank c) = i :=
      (List.findIdx?_eq_some_iff_findIdx_eq.mp hfind).2
    have hlt : i < piece.length := (List.findIdx?_eq_some_iff_findIdx_eq.mp hfind).1
    have hdrop : body piece = piece.drop i := by
      rw [body, List.dropWhile_eq_drop_findIdx_not, hidx]
    have hne : body piece ≠ [] := by
      rw [hdrop]
      simpa using hlt
    simp only
    rw [if_neg hne, hdrop, List.drop_append_of_le_length (Nat.le_of_lt hlt)]

theorem body_ne_zero {piece : List UInt8} (hnul : ∀ c ∈ piece, c ≠ 0) : ∀ c ∈ body piece, c ≠ 0 :=
  fun c hc => hnul c (body_subset piece hc)

/-- A line of blanks: the first one becomes the terminator. -/
theorem lineEditor_blank {piece : List UInt8} (hnul : ∀ c ∈ piece, c ≠ 0) (hne : piece ≠ [])
    (hlen : piece.length < maxLineLength) (hb : body piece = []) :
    ∃ s, lineEditor (lineBuffer piece) = some s ∧ cstr s = [] := by
  obtain ⟨c, cs, rfl⟩ := List.exists_cons_of_ne_nil hne
  have hblank : isBlank c = true := body_eq_nil_iff.mp hb c List.mem_cons_self
  have hhash : c ≠ chr '#' := by
    rintro rfl
    exact absurd hblank (by decide)
  rw [lineEditor, lineBuffer_eq hlen, skipBlanks_append hnul, if_pos hb]
  simp only [List.cons_append, List.head?_cons, Option.some.injEq, hhash, if_false]
  have hcut := cutString_append [] (c :: (cs ++ 0 :: List.replicate
    (maxLineLength - 1 - (c :: cs).length) 0)) (by simp)
    (by intro d hd; cases hd; exact isCut_of_isBlank hblank) maxRuleContentLength (Nat.le_refl 0)
  rw [List.nil_append, if_neg (by decide), if_neg (by simp)] at hcut
  exact ⟨_, hcut, rfl⟩

/-- A comment line is left as it is. -/
theorem lineEditor_comment {piece : List UInt8} (hnul : ∀ c ∈ piece, c ≠ 0)
    (hlen : piece.length < maxLineLength) (hh : (body piece).head? = some (chr '#')) :
    ∃ s, lineEditor (lineBuffer piece) = some s ∧ cstr s = body piece := by
  have hb : body piece ≠ [] := by
    intro hb
    rw [hb] at hh
    cases hh
  rw [lineEditor, lineBuffer_eq hlen, skipBlanks_append hnul, if_neg hb]
  refine ⟨_, if_pos ?_, cstr_append_zero (body_ne_zero hnul) _⟩
  rw [List.head?_append_of_ne_nil _ hb, hh]

/-- Any other line is cut at the end of its first word, unless that word fills the window
or runs out of the array. -/
theorem lineEditor_text {piece : List UInt8} (hnul : ∀ c ∈ piece, c ≠ 0)
    (hlen : piece.length < maxLineLength) (hb : body piece ≠ [])
    (hh : (body piece).head? ≠ some (chr '#')) :
    (∃ s, lineEditor (lineBuffer piece) = some s ∧ cstr s = lineText piece) ∨
      lineEditor (lineBuffer piece) = none ∧ word piece = body piece := by
  have hbody := body_ne_zero hnul
  obtain ⟨post, hsplit, hpost⟩ := body_eq_word_append piece
  have hword : ∀ c ∈ word piece, c ≠ 0 := fun c hc =>
    hbody c (by rw [hsplit]; exact List.mem_append_left _ hc)
  rw [lineEditor, lineBuffer_eq hlen, skipBlanks_append hnul, if_neg hb]
  simp only [List.head?_append_of_ne_nil _ hb, hh, if_false]
  generalize hz : List.replicate (maxLineLength - 1 - piece.length) (0 : UInt8) = zeros
  have hwhole : cstr (body piece ++ 0 :: zeros) = body piece := cstr_append_zero hbody _
  cases post with
  | nil =>
    -- no cut at all
    have heq : word piece = body piece := by rw [hsplit, List.append_nil]
    have htext : lineText piece = body piece := by rw [lineText, heq, ite_self]
    have huncut : ∀ c ∈ body piece ++ 0 :: zeros, isCut c = false := by
      intro c hc
      rcases List.mem_append.mp hc with hc | hc
      · exact word_not_isCut piece c (heq ▸ hc)
      · rw [← hz, ← List.replicate_succ] at hc
        rw [(List.mem_replicate.mp hc).2]
        decide
    have hcut := cutString_append _ [] huncut (by simp) maxRuleContentLength (Nat.zero_le _)
    rw [List.append_nil] at hcut
    rw [hcut, htext]
    split
    · exact .inl ⟨_, rfl, hwhole⟩
    · exact .inr ⟨by simp, heq⟩
  | cons c cs =>
    have hcut := cutString_append (word piece) (c :: (cs ++ 0 :: zeros))
      (word_not_isCut piece) (by intro d hd; cases hd; exact hpost c rfl) maxRuleContentLength
      (Nat.zero_le _)
    have hcons : body piece ++ 0 :: zeros = word piece ++ c :: (cs ++ 0 :: zeros) := by
      rw [hsplit, List.append_assoc, List.cons_append]
    left
    rw [hcons, hcut, lineText]
    split
    · rw [if_neg (by omega)]
      exact ⟨_, rfl, by rw [← hcons, hwhole]⟩
    · rw [if_neg (by simp), if_pos (by omega)]
      exact ⟨_, rfl, cstr_append_zero hword _⟩

theorem parseText_skip {host : ByteOrder} {s : CString} (h : Skipped s) :
    parseText host s = .skip := by
  rw [parseText, if_pos h]

/-- A text that is not skipped is a rule, or the load fails at it. -/
theorem parseText_of_not_skipped (host : ByteOrder) {s : CString} (h : ¬ Skipped s) :
    (∃ r, parseText host s = .rule r) ∨ ∃ code, parseText host s = .fail code := by
  unfold parseText
  rw [if_neg h]
  split
  · exact .inr ⟨_, rfl⟩
  split
  · exact .inr ⟨_, rfl⟩
  · exact .inl ⟨_, rfl⟩

/-- A text that starts with a word is not skipped. -/
theorem not_skipped {s : CString} {c : UInt8} (hs : s.head? = some c) (hcut : isCut c = false) : ¬ Skipped s := by
  unfold Skipped
  rw [hs]
  rintro (h | h | h)
  · cases h
  · cases h
    exact absurd hcut (by decide)
  · cases h
    exact absurd hcut (by decide)

/-- The first word of a blank or comment line is empty. -/
theorem lineText_of_head {piece : List UInt8}
    (h : body piece = [] ∨ (body piece).head? = some (chr '#')) : lineText piece = [] := by
  have hw : word piece = [] := by
    unfold word
    rcases h with h | h
    · rw [h]; rfl
    · obtain ⟨cs, hcs⟩ := List.head?_eq_some_iff.mp h
      rw [hcs]; rfl
  rw [lineText, hw]
  rfl

/-- `lineEditor` leaves `lineText`, or it leaves the array. The latter needs a line
without any cut, so one without a newline at its end. -/
theorem parsePiece_eq (host : ByteOrder) {piece : List UInt8} (hnul : ∀ c ∈ piece, c ≠ 0)
    (hne : piece ≠ []) (hlen : piece.length < maxLineLength) :
    parsePiece host piece = parseText host (lineText piece) ∨
      parsePiece host piece = .undefined ∧ word piece = body piece := by
  unfold parsePiece
  by_cases hb : body piece = []
  · obtain ⟨s, hs, hc⟩ := lineEditor_blank hnul hne hlen hb
    rw [hs, lineText_of_head (.inl hb)]
    simp only [hc, true_or]
  by_cases hh : (body piece).head? = some (chr '#')
  · obtain ⟨s, hs, hc⟩ := lineEditor_comment hnul hlen hh
    rw [hs, lineText_of_head (.inr hh)]
    simp only [hc]
    rw [parseText_skip (.inr (.inl hh)), parseText_skip (.inl rfl)]
    exact .inl rfl
  · rcases lineEditor_text hnul hlen hb hh with ⟨s, hs, hc⟩ | ⟨hs, heq⟩
    · rw [hs]
      simp only [hc, true_or]
    · rw [hs]
      exact .inr ⟨rfl, heq⟩

end VlanTagger.ConfigParser
