import VlanTagger.ConfigParser.Endings
import VlanTagger.ConfigParser.Grammar

/-!
# Comments and blank lines

`fgets` cuts a line into pieces of 99 bytes and the loader takes each piece for a line of
its own. `Ignored` says which pieces are passed over, by their text alone. A line that is
inserted into a file, or a comment that is appended to one of its lines, changes nothing
exactly when all the pieces it adds are ignored, or they are not reached because the load
has ended before them, or the load ends with the same code with and without them.
-/
namespace VlanTagger.ConfigParser

open Lib Lib.CString

/-- A piece that is blank, or whose text starts with `#` or is only a newline. -/
def Ignored (piece : List UInt8) : Prop :=
  body piece = [] ∨ (body piece).head? = some (chr '#') ∨ (body piece).head? = some (chr '\n')

instance (piece : List UInt8) : Decidable (Ignored piece) := inferInstanceAs (Decidable (_ ∨ _))

/-- The pieces in which a line is read, with its newline. -/
def linePieces (line : CString) : List (List UInt8) := pieces maxLineLength [] (line ++ [chr '\n'])

/-- The comment or blank line leaves nothing but ignored pieces. -/
def Harmless (line : CString) : Prop := ∀ piece ∈ linePieces line, Ignored piece

/-- So does the comment `text` behind a line, apart from the piece that it starts in. -/
def HarmlessBehind (line text : CString) : Prop :=
  ∀ piece ∈ (linePieces (line ++ chr ' ' :: chr '#' :: text)).drop (line.length / 99 + 1), Ignored piece

/-! ## One piece -/

section

variable {host : ByteOrder} {piece : List UInt8}

/-- The loader passes over the ignored pieces and over no others. -/
theorem parsePiece_eq_skip_iff (hnul : ∀ c ∈ piece, c ≠ 0) (hne : piece ≠ [])
    (hlen : piece.length < maxLineLength) : parsePiece host piece = .skip ↔ Ignored piece := by
  unfold parsePiece Ignored
  by_cases hb : body piece = []
  · obtain ⟨s, hs, hc⟩ := lineEditor_blank hnul hne hlen hb
    simp only [hs, hc, hb, true_or, iff_true]
    exact parseText_skip (.inl rfl)
  by_cases hh : (body piece).head? = some (chr '#')
  · obtain ⟨s, hs, hc⟩ := lineEditor_comment hnul hlen hh
    simp only [hs, hc, hh, true_or, or_true, iff_true]
    exact parseText_skip (.inr (.inl hh))
  simp only [hb, hh, false_or]
  have htext := lineEditor_text hnul hlen hb hh
  obtain ⟨c, cs, hcons⟩ := List.exists_cons_of_ne_nil hb
  rw [hcons, List.head?_cons, Option.some_inj] at hh ⊢
  by_cases hn : c = chr '\n'
  · have hword : word piece = [] := by
      rw [word, hcons, List.takeWhile_cons_of_neg (by rw [hn]; decide)]
    rcases htext with ⟨s, hs, hc⟩ | ⟨-, heq⟩
    · have htext : lineText piece = [] := by
        rw [lineText, hword]
        rfl
      simp only [hs, hc, htext, hn, iff_true]
      exact parseText_skip (.inl rfl)
    · rw [hword, hcons] at heq
      cases heq
  · -- the text starts with a character of a word
    have hblank : isBlank c = false := by
      have hd := List.head?_dropWhile_not isBlank piece
      rw [← body, hcons] at hd
      exact hd
    have hcut : isCut c = false := by
      simp only [isBlank, isCut, decide_eq_false_iff_not, not_or] at hblank ⊢
      exact ⟨hblank.1, hblank.2, hh, hn⟩
    have hskip : ∀ s : CString, s.head? = some c → parseText host s ≠ .skip := by
      intro s hs hskip
      rcases parseText_of_not_skipped host (not_skipped hs hcut) with ⟨r, hr⟩ | ⟨code, hr⟩
      · cases hr.symm.trans hskip
      · cases hr.symm.trans hskip
    simp only [hn, iff_false]
    rcases htext with ⟨s, hs, hc⟩ | ⟨hs, -⟩
    · simp only [hs, hc]
      apply hskip _
      have hword : word piece = c :: cs.takeWhile (fun c => !isCut c) := by
        rw [word, hcons, List.takeWhile_cons_of_pos (by rw [hcut]; rfl)]
      unfold lineText
      split
      · rw [hword, List.head?_cons]
      · rw [hcons, List.head?_cons]
    · simp only [hs]
      simp

/-- Behind a word that the window can hold, the rest of a piece does not matter. -/
theorem loadLine_append {line rest rest' : CString} {c c' : UInt8}
    (hnul : ∀ d ∈ line ++ c :: rest, d ≠ 0) (hnul' : ∀ d ∈ line ++ c' :: rest', d ≠ 0)
    (hlen : (line ++ c :: rest).length < maxLineLength)
    (hlen' : (line ++ c' :: rest').length < maxLineLength) (hb : body line ≠ [])
    (hword : (word line).length < maxRuleContentLength) (hc : isCut c = true) (hc' : isCut c' = true)
    (t : TagRules) (n : Nat) :
    loadLine host t n (lineBuffer (line ++ c :: rest)) =
      loadLine host t n (lineBuffer (line ++ c' :: rest')) := by
  -- what `line_editor` leaves, for either ending
  have hends : ∀ (c : UInt8) (rest : CString), (∀ d ∈ line ++ c :: rest, d ≠ 0) →
      (line ++ c :: rest).length < maxLineLength → isCut c = true →
      loadLine host t n (lineBuffer (line ++ c :: rest)) =
        if (body line).head? = some (chr '#') then some (.next t n)
        else some (loadText host t n (word line)) := by
    intro c rest hnul hlen hc
    have hbody : body (line ++ c :: rest) = body line ++ c :: rest := by
      rw [body, List.dropWhile_append, if_neg (by simpa [body] using hb)]
      rfl
    have hhead : (body (line ++ c :: rest)).head? = (body line).head? := by
      rw [hbody, List.head?_append_of_ne_nil _ hb]
    split
    next hh =>
      obtain ⟨s, hs, hcs⟩ := lineEditor_comment hnul hlen (hhead.trans hh)
      rw [loadLine, hs, Option.map_some, hcs, loadText, if_pos (.inr (.inl (hhead.trans hh)))]
    next hh =>
      have hw : word (line ++ c :: rest) = word line := by
        rw [word, hbody, List.takeWhile_append, word]
        split
        next hall =>
          have heq := (List.takeWhile_prefix (fun c => !isCut c) (l := body line)).eq_of_length hall
          rw [List.takeWhile_cons_of_neg (by rw [hc]; decide), List.append_nil, heq]
        · rfl
      have hne : body (line ++ c :: rest) ≠ [] := by
        rw [hbody]
        exact List.append_ne_nil_of_left_ne_nil hb _
      rcases lineEditor_text hnul hlen hne (by rwa [hhead]) with ⟨s, hs, hcs⟩ | ⟨-, heq⟩
      · rw [loadLine, hs, Option.map_some, hcs, lineText, hw, if_pos hword]
      · -- the ending is not part of the word
        have hmem : c ∈ word (line ++ c :: rest) := by
          rw [heq, hbody]
          exact List.mem_append_right _ List.mem_cons_self
        rw [word_not_isCut _ c hmem] at hc
        cases hc
  rw [hends c rest hnul hlen hc, hends c' rest' hnul' hlen' hc']

theorem parsePiece_append {line rest : CString} {c : UInt8} (hnul : ∀ d ∈ line ++ c :: rest, d ≠ 0)
    (hlen : (line ++ c :: rest).length < maxLineLength) (hb : body line ≠ [])
    (hword : (word line).length < maxRuleContentLength) (hc : isCut c = true) :
    parsePiece host (line ++ c :: rest) = parseText host (word line) := by
  obtain ⟨post, hsplit, hpost⟩ := body_eq_word_append line
  have hbody : body (line ++ c :: rest) = word line ++ (post ++ c :: rest) := by
    rw [body_append_end hb, hsplit, List.append_assoc]
  cases post with
  | nil => exact parsePiece_of_word host hnul hlen hbody (word_not_isCut line) hc hword
  | cons d ds =>
    exact parsePiece_of_word host hnul hlen hbody (word_not_isCut line) (hpost d rfl) hword

/-- A word that fills the window makes the whole line the text, and the newline at its end is
no part of a tag. -/
theorem parsePiece_long_word {line : CString} (hnul : ∀ d ∈ line ++ [chr '\n'], d ≠ 0)
    (hlen : (line ++ [chr '\n']).length < maxLineLength)
    (hword : ¬ (word line).length < maxRuleContentLength) :
    ∃ code, parsePiece host (line ++ [chr '\n']) = .fail code := by
  have hb : body line ≠ [] := by
    intro hb
    rw [word, hb] at hword
    exact hword (by decide)
  have hbody : body (line ++ [chr '\n']) = body line ++ [chr '\n'] := body_append_end hb _
  have hsame : word (line ++ [chr '\n']) = word line := word_append_end hb (.inl rfl)
  have htext : lineText (line ++ [chr '\n']) = body line ++ [chr '\n'] := by
    rw [lineText, hsame, if_neg hword, hbody]
  have hparse : parsePiece host (line ++ [chr '\n']) = parseText host (body line ++ [chr '\n']) := by
    rcases parsePiece_eq host hnul (by simp) hlen with h | ⟨-, h⟩
    · rw [h, htext]
    · -- the newline ends the word
      have hmem : chr '\n' ∈ word (line ++ [chr '\n']) := by
        rw [h, hbody]
        exact List.mem_append_right _ List.mem_cons_self
      exact absurd (word_not_isCut _ _ hmem) (by decide)
  obtain ⟨c, cs, hcons⟩ := List.exists_cons_of_ne_nil hb
  have hcut : isCut c = false := by
    apply word_not_isCut line c
    cases hw : isCut c with
    | false =>
      rw [word, hcons, List.takeWhile_cons_of_pos (by rw [hw]; rfl)]
      exact List.mem_cons_self
    | true =>
      rw [word, hcons, List.takeWhile_cons_of_neg (by rw [hw]; decide)] at hword
      exact absurd (by decide) hword
  have hskip : ¬ Skipped (body line ++ [chr '\n']) :=
    not_skipped (by rw [hcons, List.cons_append, List.head?_cons]) hcut
  rw [hparse]
  rcases parseText_of_not_skipped host hskip with hrule | hfail
  · -- the last character of a rule is a digit
    obtain ⟨r, -, hacc⟩ := parseText_accepted hskip (.inr hrule)
    obtain ⟨d, hd, hdigit⟩ := hacc.getLast
    rw [List.getLast?_concat] at hd
    cases hd
    exact absurd hdigit (by decide)
  · exact hfail

/-- The end of a blank line, with its newline or with the start of a comment. -/
theorem ignored_newline {line : CString} (hb : body line = []) : Ignored (line ++ [chr '\n']) := by
  right
  right
  rw [body, List.dropWhile_append, if_pos (by rw [← body, hb]; rfl)]
  rfl

theorem ignored_comment {line last rest : CString} (hb : body line = []) (hlast : last <+: chr '#' :: rest) :
    Ignored (line ++ chr ' ' :: last) := by
  have hbody : body (line ++ chr ' ' :: last) = body last := by
    rw [body, List.dropWhile_append, if_pos (by rw [← body, hb]; rfl)]
    rfl
  unfold Ignored
  rw [hbody]
  rcases List.prefix_cons_iff.mp hlast with rfl | ⟨last', rfl, -⟩
  · exact .inl rfl
  · exact .inr (.inl rfl)

end

/-! ## Pieces added to a file -/

section

variable {host : ByteOrder}

/-- The loop goes through pieces that are passed over as if they were not there. -/
theorem loadLoop_skip {pre mid post : List (List UInt8)} (hmid : ∀ piece ∈ mid, parsePiece host piece = .skip)
    (t : TagRules) (n : Nat) :
    loadLoop host t n (pre ++ (mid ++ post)) = loadLoop host t n (pre ++ post) := by
  induction pre generalizing t n with
  | nil =>
    rw [List.nil_append, List.nil_append]
    induction mid with
    | nil => rfl
    | cons piece rest ih =>
      obtain ⟨hfirst, hrest⟩ := List.forall_mem_cons.mp hmid
      rw [List.cons_append, loadLoop, loadLine_skip hfirst]
      exact ih hrest
  | cons piece rest ih =>
    rw [List.cons_append, List.cons_append, loadLoop, loadLoop]
    split
    · rfl
    · rfl
    · exact ih _ _

/-- The loop cannot tell pieces apart on which its body does the same. -/
theorem loadLoop_congr {pre post : List (List UInt8)} {piece piece' : List UInt8}
    (h : ∀ t n, loadLine host t n (lineBuffer piece) = loadLine host t n (lineBuffer piece'))
    (t : TagRules) (n : Nat) :
    loadLoop host t n (pre ++ piece :: post) = loadLoop host t n (pre ++ piece' :: post) := by
  induction pre generalizing t n with
  | nil => rw [List.nil_append, List.nil_append, loadLoop, loadLoop, h]
  | cons first rest ih =>
    rw [List.cons_append, List.cons_append, loadLoop, loadLoop]
    split
    · rfl
    · rfl
    · exact ih _ _

end

/-! ## Lines -/

/-- The part of a line that `fgets` reads together with what follows the line. -/
def lastPart (line : CString) : CString := line.drop (99 * (line.length / 99))

theorem tagRulesLoad_fileOf (t : TagRules) (lines : List CString) :
    tagRulesLoad host t (fileOf lines) =
      finish host (loadLoop host .zero 0 (pieces maxLineLength [] (printFile lines))) := by
  unfold tagRulesLoad fileOf
  simp only [Bool.not_true, Bool.false_eq_true, if_false, Option.map_none, Option.getD_none, Option.any_none]
  cases loadLoop host .zero 0 (pieces maxLineLength [] (printFile lines)) with
  | none => rfl
  | some out => cases out <;> rfl

theorem printFile_pieces {lines : List CString} (h : ∀ line ∈ lines, chr '\n' ∉ line) :
    pieces maxLineLength [] (printFile lines) = lines.flatMap linePieces := by
  induction lines with
  | nil => rfl
  | cons line rest ih =>
    obtain ⟨hline, hrest⟩ := List.forall_mem_cons.mp h
    rw [printFile, List.flatMap_cons, List.append_assoc, List.singleton_append, pieces_newline hline,
      List.flatMap_cons]
    exact congrArg _ (ih hrest)

/-- A line and the same line with more behind it are read in the same pieces, up to the
piece in which they part. -/
theorem linePieces_append {line : CString} (hnl : chr '\n' ∉ line) (c : UInt8) (rest : CString) :
    ∃ full last more, full.length = line.length / 99 ∧ last <+: rest ++ [chr '\n'] ∧
      linePieces line = full ++ [lastPart line ++ [chr '\n']] ∧
      linePieces (line ++ c :: rest) = full ++ (lastPart line ++ c :: last) :: more := by
  induction hlen : line.length / 99 generalizing line with
  | zero =>
    have hshort : line.length + 1 < maxLineLength := by unfold maxLineLength; omega
    have hpart : lastPart line = line := by rw [lastPart, hlen, Nat.mul_zero, List.drop_zero]
    have hbase : linePieces line = [line ++ [chr '\n']] := by
      rw [linePieces, pieces_line hnl (by rw [List.length_nil]; omega), List.nil_append]
      rfl
    -- the piece holds at least one character more
    obtain ⟨last, more, hlast, hpiece⟩ : ∃ last more, last <+: rest ++ [chr '\n'] ∧
        pieces maxLineLength line (c :: (rest ++ [chr '\n'])) = (line ++ c :: last) :: more := by
      rw [pieces]
      split
      · exact ⟨[], _, List.nil_prefix, rfl⟩
      · obtain ⟨last, more, hlast, heq⟩ := @pieces_cons maxLineLength (line ++ [c])
          (List.append_ne_nil_of_right_ne_nil _ (by simp)) (rest ++ [chr '\n'])
        exact ⟨last, more, hlast, by rw [heq, List.append_assoc, List.singleton_append]⟩
    refine ⟨[], last, more, rfl, hlast, by rw [hbase, hpart, List.nil_append], ?_⟩
    rw [linePieces, List.append_assoc, List.cons_append, pieces_shift hnl (by rw [List.length_nil]; omega),
      List.nil_append, hpiece, hpart, List.nil_append]
  | succ k ih =>
    have hlong : 99 ≤ line.length := by omega
    have htake : (line.take 99).length = 99 := by rw [List.length_take, Nat.min_eq_left hlong]
    have hsplit := List.take_append_drop 99 line
    have hnl' : chr '\n' ∉ line.drop 99 := fun h => hnl (List.mem_of_mem_drop h)
    have hdrop : (line.drop 99).length / 99 = k := by rw [List.length_drop]; omega
    have hpart : lastPart (line.drop 99) = lastPart line := by
      rw [lastPart, lastPart, hdrop, hlen, List.drop_drop]
      congr 1
      omega
    have hcut : ∀ rest, pieces maxLineLength [] (line ++ rest) =
        line.take 99 :: pieces maxLineLength [] (line.drop 99 ++ rest) := by
      intro rest
      rw [← hsplit, List.append_assoc, pieces_full (fun h => hnl (List.mem_of_mem_take h))
        (by rw [htake]; rfl) (by decide), hsplit]
    obtain ⟨full, last, more, hfull, hlast, hbase, hmore⟩ := ih hnl' hdrop
    refine ⟨line.take 99 :: full, last, more, by rw [List.length_cons, hfull], hlast, ?_, ?_⟩
    · rw [linePieces, hcut]
      exact congrArg _ (by rw [← hpart]; exact hbase)
    · rw [linePieces, List.append_assoc, hcut, ← List.append_assoc]
      exact congrArg _ (by rw [← hpart]; exact hmore)

/-- A text without NUL and newline. -/
structure Plain (s : CString) : Prop where
  nul : 0 ∉ s
  newline : chr '\n' ∉ s

theorem Plain.append {s s' : CString} (h : Plain s) (h' : Plain s') : Plain (s ++ s') :=
  ⟨fun hm => (List.mem_append.mp hm).elim h.nul h'.nul,
    fun hm => (List.mem_append.mp hm).elim h.newline h'.newline⟩

theorem Plain.comment {text : CString} (h : Plain text) : Plain (chr ' ' :: chr '#' :: text) :=
  Plain.append (s := [chr ' ', chr '#']) ⟨by decide, by decide⟩ h

section

variable {line piece : CString}

theorem Plain.pieces (h : Plain line) (hpiece : piece ∈ linePieces line) :
    (∀ c ∈ piece, c ≠ 0) ∧ piece ≠ [] ∧ piece.length < maxLineLength := by
  obtain ⟨hpos, hlen⟩ := length_of_mem_pieces (by decide) hpiece
  refine ⟨?_, List.length_pos_iff.mp hpos, hlen⟩
  rintro c hc rfl
  rcases List.mem_append.mp (subset_of_mem_pieces hpiece hc) with hzero | hzero
  · cases hzero
  rcases List.mem_append.mp hzero with hzero | hzero
  · exact h.nul hzero
  · exact absurd (List.mem_singleton.mp hzero) (by decide)

theorem harmless_iff (host : ByteOrder) (h : Plain line) :
    Harmless line ↔ ∀ piece ∈ linePieces line, parsePiece host piece = .skip := by
  refine forall₂_congr fun piece hpiece => ?_
  obtain ⟨hnul, hne, hlen⟩ := h.pieces hpiece
  exact (parsePiece_eq_skip_iff hnul hne hlen).symm

theorem harmlessBehind_iff (host : ByteOrder) {text : CString} (h : Plain line) (ht : Plain text) :
    HarmlessBehind line text ↔
      ∀ piece ∈ (linePieces (line ++ chr ' ' :: chr '#' :: text)).drop (line.length / 99 + 1),
        parsePiece host piece = .skip := by
  refine forall₂_congr fun piece hpiece => ?_
  obtain ⟨hnul, hne, hlen⟩ := (h.append ht.comment).pieces (List.mem_of_mem_drop hpiece)
  exact (parsePiece_eq_skip_iff hnul hne hlen).symm

/-- A blank line is harmless whatever its length. -/
theorem harmless_of_blank (h : ∀ c ∈ line, isBlank c = true) : Harmless line := by
  intro piece hpiece
  cases hb : body piece with
  | nil => exact .inl hb
  | cons c cs =>
    have hblank : isBlank c = false := by
      have hd := List.head?_dropWhile_not isBlank piece
      rw [← body, hb] at hd
      exact hd
    have hmem : c ∈ piece := body_subset piece (by rw [hb]; exact List.mem_cons_self)
    rcases List.mem_append.mp (subset_of_mem_pieces hpiece hmem) with hc | hc
    · cases hc
    rcases List.mem_append.mp hc with hc | hc
    · rw [h c hc] at hblank
      cases hblank
    · rw [List.mem_singleton.mp hc] at hb
      exact .inr (.inr (by rw [hb, List.head?_cons]))

/-- A rule line of the documented format has a short first word. -/
theorem PrintedLine.short_word {r : SourceRule} (h : PrintedLine (some r) line) (hlen : line.length ≤ 98) :
    body (lastPart line) ≠ [] ∧ (word (lastPart line)).length < maxRuleContentLength := by
  have hpart : lastPart line = line := by
    have hzero : line.length / 99 = 0 := by omega
    rw [lastPart, hzero, Nat.mul_zero, List.drop_zero]
  rw [hpart]
  cases h with
  | @rule r indent text trailer hi htext htrailer =>
    have hhead : ∀ rest, (text ++ rest).head?.any isdigit = true := head_ruleText htext
    have hbody : body (indent ++ (text ++ trailer)) = text ++ trailer := by
      refine body_indent hi fun c hc => ?_
      have hd := hhead trailer
      rw [hc] at hd
      exact isBlank_of_not_isCut (isCut_of_isdigit (by simpa using hd))
    have hne : text ++ trailer ≠ [] := by
      intro hnil
      have hd := hhead trailer
      rw [hnil] at hd
      cases hd
    have hword : word (indent ++ (text ++ trailer)) = text := by
      have hall : ∀ c ∈ text, (!isCut c) = true := fun c hc => by
        rw [ruleText_not_isCut htext c hc]
        rfl
      rw [word, hbody, List.takeWhile_append_of_pos hall]
      cases trailer with
      | nil => rw [List.takeWhile_nil, List.append_nil]
      | cons c cs =>
        have hc : isCut c = true := by
          rcases htrailer c rfl with hc | rfl
          · exact isCut_of_isBlank hc
          · decide
        rw [List.takeWhile_cons_of_neg (by rw [hc]; decide), List.append_nil]
    rw [hbody, hword]
    exact ⟨hne, length_ruleText_lt htext⟩

end

/-- The piece in which a line ends, with and without a comment behind it. -/
theorem comment_piece {host : ByteOrder} {line last rest : CString}
    (hnul : ∀ c ∈ line ++ [chr '\n'], c ≠ 0) (hlen : (line ++ [chr '\n']).length < maxLineLength)
    (hnul' : ∀ c ∈ line ++ chr ' ' :: last, c ≠ 0)
    (hlen' : (line ++ chr ' ' :: last).length < maxLineLength)
    (hword : (word line).length < maxRuleContentLength) (hlast : last <+: chr '#' :: rest) :
    parsePiece host (line ++ chr ' ' :: last) = parsePiece host (line ++ [chr '\n']) ∧
      ∀ t n, loadLine host t n (lineBuffer (line ++ chr ' ' :: last)) =
        loadLine host t n (lineBuffer (line ++ [chr '\n'])) := by
  by_cases hb : body line = []
  · have hskip : parsePiece host (line ++ [chr '\n']) = .skip :=
      (parsePiece_eq_skip_iff hnul (by simp) hlen).mpr (ignored_newline hb)
    have hskip' : parsePiece host (line ++ chr ' ' :: last) = .skip :=
      (parsePiece_eq_skip_iff hnul' (by simp) hlen').mpr (ignored_comment hb hlast)
    exact ⟨hskip'.trans hskip.symm, fun t n => by rw [loadLine_skip hskip, loadLine_skip hskip']⟩
  · exact ⟨(parsePiece_append hnul' hlen' hb hword (by decide)).trans
        (parsePiece_append hnul hlen hb hword (by decide)).symm,
      fun t n => loadLine_append hnul' hnul hlen' hlen hb hword (by decide) (by decide) t n⟩

/-- The pieces of a line and of the same line with a comment behind it. -/
theorem comment_pieces (host : ByteOrder) {line text : CString} (hline : Plain line) (htext : Plain text) :
    ∃ full piece piece' more, linePieces line = full ++ [piece] ∧
      linePieces (line ++ chr ' ' :: chr '#' :: text) = full ++ piece' :: more ∧
      full.length = line.length / 99 ∧
      ((word (lastPart line)).length < maxRuleContentLength →
        parsePiece host piece' = parsePiece host piece ∧
          ∀ t n, loadLine host t n (lineBuffer piece') = loadLine host t n (lineBuffer piece)) ∧
      (¬ (word (lastPart line)).length < maxRuleContentLength →
        ∃ code, parsePiece host piece = .fail code) := by
  have hlong := hline.append htext.comment
  obtain ⟨full, last, more, hfull, hlast, hpieces, hpieces'⟩ :=
    linePieces_append hline.newline (chr ' ') (chr '#' :: text)
  have hmem : lastPart line ++ [chr '\n'] ∈ linePieces line := by
    rw [hpieces]
    exact List.mem_append_right _ List.mem_cons_self
  have hmem' : lastPart line ++ chr ' ' :: last ∈ linePieces (line ++ chr ' ' :: chr '#' :: text) := by
    rw [hpieces']
    exact List.mem_append_right _ List.mem_cons_self
  obtain ⟨hnul, -, hlen⟩ := hline.pieces hmem
  obtain ⟨hnul', -, hlen'⟩ := hlong.pieces hmem'
  exact ⟨full, _, _, more, hpieces, hpieces', hfull,
    fun hword => comment_piece hnul hlen hnul' hlen' hword hlast,
    fun hword => parsePiece_long_word hnul hlen hword⟩

/-! ## The law -/

/-- The load ends in one of these pieces. -/
def EndsIn (host : ByteOrder) (before : List (List UInt8)) : Prop := (endOf host 0 before).isSome = true

/-- Behind these pieces the load ends in `xs` and in `ys`, with the same code. -/
def EndAlike (host : ByteOrder) (before xs ys : List (List UInt8)) : Prop :=
  ∃ e, endOf host (rulesOf host before).length xs = some e ∧
    endOf host (rulesOf host before).length ys = some e

section

variable {host : ByteOrder} {before xs : List (List UInt8)}

/-- Pieces that are inserted make no difference exactly if they are not reached, or are passed
over, or end a load that ends with the same code without them. -/
theorem outcome_insert_iff {mid : List (List UInt8)} :
    outcome (finish host (loadLoop host .zero 0 (before ++ (mid ++ xs)))) =
        outcome (finish host (loadLoop host .zero 0 (before ++ xs))) ↔
      EndsIn host before ∨ (∀ piece ∈ mid, parsePiece host piece = .skip) ∨
        EndAlike host before xs (mid ++ xs) := by
  rw [outcome_append_iff]
  refine or_congr_right ⟨fun ⟨hend, hrules⟩ => ?_, fun h => ?_⟩
  · cases hxs : endOf host (rulesOf host before).length xs with
    | some e => exact .inr ⟨e, hxs, hend.trans hxs⟩
    | none =>
      have hnone := hend.trans hxs
      have hsame := hrules hnone
      rw [endOf_append, Option.or_eq_none_iff] at hnone
      rw [rulesOf_append, List.append_left_eq_self] at hsame
      exact .inl (skips_of_endOf hnone.1 hsame)
  · rcases h with hskip | ⟨e, hxs, hmid⟩
    · rw [endOf_append, endOf_skips hskip, rulesOf_append, rulesOf_skips hskip]
      exact ⟨rfl, fun _ => rfl⟩
    · rw [hxs, hmid]
      exact ⟨rfl, nofun⟩

/-- A piece that parses alike with more behind it makes no difference exactly if the same holds
of what is behind it. -/
theorem outcome_extend_iff {piece piece' : List UInt8} {more : List (List UInt8)} {short : Prop}
    (halike : short → parsePiece host piece' = parsePiece host piece)
    (hfail : ¬ short → ∃ code, parsePiece host piece = .fail code) :
    outcome (finish host (loadLoop host .zero 0 (before ++ piece' :: (more ++ xs)))) =
        outcome (finish host (loadLoop host .zero 0 (before ++ piece :: xs))) ↔
      EndsIn host before ∨ (short ∧ ∀ piece ∈ more, parsePiece host piece = .skip) ∨
        EndAlike host before (piece :: xs) (piece' :: (more ++ xs)) := by
  have hrule : short → ∀ xs, rulesOf host (piece' :: xs) = (ruleOf host piece).toList ++ rulesOf host xs := by
    intro hshort xs
    rw [rulesOf_cons, ruleOf, halike hshort]
    rfl
  rw [outcome_append_iff]
  refine or_congr_right ⟨fun h => ?_, fun h => ?_⟩
  · obtain ⟨hend, hrules⟩ := h
    cases hxs : endOf host (rulesOf host before).length (piece :: xs) with
    | some e => exact .inr ⟨e, hxs, hend.trans hxs⟩
    | none =>
      have hshort : short := by
        by_contra hn
        obtain ⟨code, hcode⟩ := hfail hn
        rw [endOf_fail hcode] at hxs
        cases hxs
      have hnone := hend.trans hxs
      have hsame := hrules hnone
      rw [hrule hshort, rulesOf_cons, List.append_cancel_left_eq, rulesOf_append,
        List.append_left_eq_self] at hsame
      rw [← List.singleton_append, endOf_append, endOf_append, Option.or_eq_none_iff,
        Option.or_eq_none_iff] at hnone
      exact .inl ⟨hshort, skips_of_endOf hnone.2.1 hsame⟩
  · rcases h with ⟨hshort, hskip⟩ | ⟨e, hxs, hmid⟩
    · have hend : ∀ n, endOf host n (more ++ xs) = endOf host n xs := by
        intro n
        rw [endOf_append, endOf_skips hskip, rulesOf_skips hskip]
        rfl
      refine ⟨?_, fun _ => ?_⟩
      · rw [endOf_congr (halike hshort), ← List.singleton_append, endOf_append, hend, ← endOf_append]
        rfl
      · rw [hrule hshort, rulesOf_cons, rulesOf_append, rulesOf_skips hskip, List.nil_append]
    · rw [hxs, hmid]
      exact ⟨rfl, fun hnone => absurd hnone (Option.some_ne_none e)⟩

end

/-- The pieces of a line up to its last part. -/
def fullPieces (line : CString) : List (List UInt8) := (linePieces line).take (line.length / 99)

/-- The pieces of the text from the last part of `line` on, which it starts with. -/
def piecesFrom (line text : CString) : List (List UInt8) := (linePieces text).drop (line.length / 99)

/-- When comments and blank lines do not matter. A line that is inserted changes the return value
or the loaded rules unless the load has ended before it, or all its pieces are ignored, or the load
ends in the lines behind it and ends with the same code in it; and so does a comment that is
appended to a line, where the word that the comment follows has to fit the window. -/
theorem comments_ignored_iff (host : ByteOrder) (t : TagRules) {pre post : List CString}
    (hpre : ∀ line ∈ pre, chr '\n' ∉ line) (hpost : ∀ line ∈ post, chr '\n' ∉ line) {line : CString}
    (hline : Plain line) :
    ((∀ c ∈ line, isBlank c = true) → Harmless line) ∧
    (Harmless line →
      tagRulesLoad host t (fileOf (pre ++ line :: post)) = tagRulesLoad host t (fileOf (pre ++ post))) ∧
    (outcome (tagRulesLoad host t (fileOf (pre ++ line :: post))) =
        outcome (tagRulesLoad host t (fileOf (pre ++ post))) ↔
      EndsIn host (pre.flatMap linePieces) ∨ Harmless line ∨
        EndAlike host (pre.flatMap linePieces) (post.flatMap linePieces)
          (linePieces line ++ post.flatMap linePieces)) ∧
    (∀ r, PrintedLine (some r) line → line.length ≤ 98 →
      body (lastPart line) ≠ [] ∧ (word (lastPart line)).length < maxRuleContentLength) ∧
    ∀ text, Plain text →
      ((word (lastPart line)).length < maxRuleContentLength → HarmlessBehind line text →
        tagRulesLoad host t (fileOf (pre ++ (line ++ chr ' ' :: chr '#' :: text) :: post)) =
          tagRulesLoad host t (fileOf (pre ++ line :: post))) ∧
      (outcome (tagRulesLoad host t (fileOf (pre ++ (line ++ chr ' ' :: chr '#' :: text) :: post))) =
          outcome (tagRulesLoad host t (fileOf (pre ++ line :: post))) ↔
        EndsIn host (pre.flatMap linePieces ++ fullPieces line) ∨
          ((word (lastPart line)).length < maxRuleContentLength ∧ HarmlessBehind line text) ∨
          EndAlike host (pre.flatMap linePieces ++ fullPieces line)
            (piecesFrom line line ++ post.flatMap linePieces)
            (piecesFrom line (line ++ chr ' ' :: chr '#' :: text) ++ post.flatMap linePieces)) := by
  have hload : ∀ lines : List CString, (∀ l ∈ lines, chr '\n' ∉ l) →
      tagRulesLoad host t (fileOf (pre ++ (lines ++ post))) =
        finish host (loadLoop host .zero 0
          (pre.flatMap linePieces ++ (lines.flatMap linePieces ++ post.flatMap linePieces))) := by
    intro lines hlines
    rw [tagRulesLoad_fileOf, printFile_pieces, List.flatMap_append, List.flatMap_append]
    exact List.forall_mem_append.mpr ⟨hpre, List.forall_mem_append.mpr ⟨hlines, hpost⟩⟩
  have hbase := hload [] nofun
  have hone : ∀ l : CString, chr '\n' ∉ l → tagRulesLoad host t (fileOf (pre ++ l :: post)) =
      finish host (loadLoop host .zero 0
        (pre.flatMap linePieces ++ (linePieces l ++ post.flatMap linePieces))) := by
    intro l hl
    have h := hload [l] (by simpa using hl)
    rwa [List.flatMap_singleton] at h
  rw [List.nil_append, List.flatMap_nil, List.nil_append] at hbase
  rw [hone line hline.newline, hbase]
  refine ⟨harmless_of_blank, fun hharm => ?_, ?_, fun r h hlen => h.short_word hlen, fun text htext => ?_⟩
  · rw [loadLoop_skip ((harmless_iff host hline).mp hharm)]
  · rw [outcome_insert_iff, harmless_iff host hline]
  · have hlong := hline.append htext.comment
    obtain ⟨full, piece, piece', more, hpieces, hpieces', hfull, hshort, hfail⟩ :=
      comment_pieces host hline htext
    have htake : fullPieces line = full := by
      rw [fullPieces, hpieces, ← hfull, List.take_left]
    have hfrom : piecesFrom line line = [piece] := by
      rw [piecesFrom, hpieces, ← hfull, List.drop_left]
    have hfrom' : piecesFrom line (line ++ chr ' ' :: chr '#' :: text) = piece' :: more := by
      rw [piecesFrom, hpieces', ← hfull, List.drop_left]
    have hbehind : HarmlessBehind line text ↔ ∀ piece ∈ more, parsePiece host piece = .skip := by
      rw [harmlessBehind_iff host hline htext, hpieces', ← hfull, ← List.drop_drop, List.drop_left,
        List.drop_succ_cons, List.drop_zero]
    rw [hone _ hlong.newline, hpieces, hpieces', htake, hfrom, hfrom', hbehind, List.append_assoc full,
      List.append_assoc full, ← List.append_assoc (pre.flatMap linePieces),
      ← List.append_assoc (pre.flatMap linePieces), List.cons_append, List.singleton_append]
    refine ⟨fun hword hskip => ?_, outcome_extend_iff (fun hword => (hshort hword).1) hfail⟩
    rw [loadLoop_congr (hshort hword).2, ← List.singleton_append, ← List.append_assoc,
      loadLoop_skip hskip, List.append_assoc, List.singleton_append]

/-- A comment of 99 bytes behind which stands a rule. -/
def longComment : CString := chr '#' :: (List.replicate 98 (chr 'x') ++ ofString "10.0.0.1-7")

/-- The loader takes the rest of the comment for a rule; behind another rule it fails on it. -/
theorem long_comment_loaded :
    outcome (tagRulesLoad .little .zero (fileOf [])) = some (0, []) ∧
      outcome (tagRulesLoad .little .zero (fileOf [longComment])) =
        some (1, [⟨0x0100000a, 0x0100000a, 7⟩]) ∧
      outcome (tagRulesLoad .little .zero (fileOf [ofString "10.0.0.2-8"])) =
        some (1, [⟨0x0200000a, 0x0200000a, 8⟩]) ∧
      outcome (tagRulesLoad .little .zero (fileOf [ofString "10.0.0.2-8" ++ chr ' ' :: longComment])) =
        some (-8, []) := by
  decide +kernel

/-- A short comment in front of a rule, and a long one behind a line that ends the load. -/
theorem comments_ignored_short :
    tagRulesLoad .little .zero (fileOf [ofString "# pools", ofString "10.0.0.1-7"]) =
        tagRulesLoad .little .zero (fileOf [ofString "10.0.0.1-7"]) ∧
      outcome (tagRulesLoad .little .zero (fileOf [ofString "bad", longComment])) =
        outcome (tagRulesLoad .little .zero (fileOf [ofString "bad"])) :=
  ⟨(@comments_ignored_iff .little .zero [] [ofString "10.0.0.1-7"] nofun (by decide) (ofString "# pools")
      ⟨by decide, by decide⟩).2.1 (by unfold Harmless; decide +kernel),
    (@comments_ignored_iff .little .zero [ofString "bad"] [] (by decide) nofun longComment
      ⟨by decide, by decide⟩).2.2.1.mpr (.inl (by unfold EndsIn; decide +kernel))⟩

end VlanTagger.ConfigParser
