import Mathlib.Data.List.ReduceOption
import VlanTagger.ConfigParser.RoundTrip

/-!
# Which lines the loader accepts

`Documented` is the format of the user documentation. The loader accepts more: the
line ends for it at the first blank behind the rule, and addresses and tags are
whatever `inet_aton` and `strtol` read. `Accepted` is that larger format, and an
accepted file consists of blank lines, comments and lines in it.
-/
namespace VlanTagger.ConfigParser

open Lib Lib.CString

/-! ## The documented format -/

/-- A decimal number 0..255. -/
structure Octet (s : CString) (n : Nat) : Prop where
  ne_nil : s ≠ []
  digits : ∀ c ∈ s, isdigit c = true
  value : numeral s = n
  le : n ≤ 255

/-- Four decimal numbers, separated by dots. -/
inductive DottedQuad : CString → UInt32 → Prop
  | mk {p q r s : CString} {a b c d : Nat} (hp : Octet p a) (hq : Octet q b) (hr : Octet r c)
      (hs : Octet s d) :
      DottedQuad (p ++ chr '.' :: (q ++ chr '.' :: (r ++ chr '.' :: s)))
        (UInt32.ofNat (a * 16777216 + b * 65536 + c * 256 + d))

/-- Nothing but blanks and tabs, and possibly a comment behind them. -/
def Rest (s : CString) : Prop :=
  ∃ blanks comment, s = blanks ++ comment ∧ (∀ c ∈ blanks, isBlank c = true) ∧
    (comment = [] ∨ comment.head? = some (chr '#'))

/-- A line of the documented format and the rule on it. -/
inductive Documented (host : ByteOrder) : CString → Option TagRule → Prop
  | blank {line : CString} (h : ∀ c ∈ line, isBlank c = true) : Documented host line none
  | comment {indent rest : CString} (hi : ∀ c ∈ indent, isBlank c = true) :
      Documented host (indent ++ chr '#' :: rest) none
  | single {indent a n rest : CString} {addr : UInt32} (hi : ∀ c ∈ indent, isBlank c = true)
      (ha : DottedQuad a addr) (hn : n ≠ []) (hd : ∀ c ∈ n, isdigit c = true) (hr : Rest rest) :
      Documented host (indent ++ (a ++ chr '-' :: (n ++ rest)))
        (some ⟨host.htonl addr, host.htonl addr, numeral n⟩)
  | range {indent a b n rest : CString} {left right : UInt32}
      (hi : ∀ c ∈ indent, isBlank c = true) (ha : DottedQuad a left) (hb : DottedQuad b right)
      (hn : n ≠ []) (hd : ∀ c ∈ n, isdigit c = true) (hr : Rest rest) :
      Documented host (indent ++ (a ++ chr '-' :: (b ++ chr '-' :: (n ++ rest))))
        (some ⟨host.htonl left, host.htonl right, numeral n⟩)

/-! ## The accepted format -/

/-- White space, an optional plus sign and decimal digits. -/
inductive TagText : CString → Int → Prop
  | mk {space plus digits : CString} (hspace : ∀ c ∈ space, isspace c = true)
      (hplus : plus = [] ∨ plus = [chr '+']) (hne : digits ≠ [])
      (hdigits : ∀ c ∈ digits, isdigit c = true) :
      TagText (space ++ (plus ++ digits)) (numeral digits : Int)

/-- One or two dash-free addresses that `inet_aton` reads and a tag, separated by dashes. -/
inductive AcceptedText (host : ByteOrder) : CString → TagRule → Prop
  | single {a n : CString} {addr : UInt32} {tag : Int} (hda : chr '-' ∉ a)
      (ha : inetAton host a = some addr) (hn : TagText n tag) :
      AcceptedText host (a ++ chr '-' :: n) ⟨addr, addr, tag⟩
  | range {a b n : CString} {left right : UInt32} {tag : Int} (hda : chr '-' ∉ a)
      (hdb : chr '-' ∉ b) (ha : inetAton host a = some left) (hb : inetAton host b = some right)
      (hn : TagText n tag) :
      AcceptedText host (a ++ chr '-' :: (b ++ chr '-' :: n)) ⟨left, right, tag⟩

/-- The text of the rule ends at the first blank, tab or `#` of the line when that is
one of the first 37 characters behind the indent, and at the end of the line otherwise. -/
def TextEnds (text rest : CString) : Prop :=
  (∀ c ∈ text.take maxRuleContentLength, isCut c = false) ∧
    (rest = [] ∨ text.length < maxRuleContentLength ∧
      ∃ c, rest.head? = some c ∧ (isBlank c = true ∨ c = chr '#'))

/-- A line of the accepted format, without its newline, and the rule on it. -/
inductive Accepted (host : ByteOrder) : CString → Option TagRule → Prop
  | blank {line : CString} (h : ∀ c ∈ line, isBlank c = true) : Accepted host line none
  | comment {indent rest : CString} (hi : ∀ c ∈ indent, isBlank c = true) :
      Accepted host (indent ++ chr '#' :: rest) none
  | rule {indent text rest : CString} {r : TagRule} (hi : ∀ c ∈ indent, isBlank c = true)
      (hend : TextEnds text rest) (htext : AcceptedText host text r) :
      Accepted host (indent ++ (text ++ rest)) (some r)

/-! ## Texts -/

theorem tagText_of_tagConverting {n : CString} {tag : Int} (hdash : chr '-' ∉ n)
    (h : tagConverting n = some tag) : TagText n tag := by
  unfold tagConverting at h
  simp only at h
  split at h
  · cases h
  next hr =>
  split at h
  · cases h
  next hc =>
  have hrange : (strtol n).erange = false := by
    by_contra he
    exact hr (.inl (by simpa using he))
  have hconv : (strtol n).converted = true := by
    by_contra hn
    exact hc (.inl hn)
  have hrest : (strtol n).rest = [] := by
    by_contra hn
    exact hc (.inr hn)
  obtain ⟨space, plus, digits, hs, hspace, hplus, hne, hdigits, hv⟩ :=
    strtol_complete hdash hconv hrange hrest
  rw [hv] at h
  cases h
  rw [hs]
  exact .mk hspace hplus hne hdigits

/-- A tag ends in a digit. -/
theorem TagText.getLast {n : CString} {tag : Int} (h : TagText n tag) :
    ∃ c, n.getLast? = some c ∧ isdigit c = true := by
  cases h with
  | @mk space plus digits hspace hplus hne hdigits =>
    refine ⟨digits.getLast hne, ?_, hdigits _ (List.getLast_mem hne)⟩
    rw [List.getLast?_append_of_ne_nil _ (by simp [hne]), List.getLast?_append_of_ne_nil _ hne,
      List.getLast?_eq_some_getLast hne]

theorem AcceptedText.getLast {host : ByteOrder} {text : CString} {r : TagRule}
    (h : AcceptedText host text r) : ∃ c, text.getLast? = some c ∧ isdigit c = true := by
  cases h with
  | @single a n addr tag hda ha hn =>
    obtain ⟨c, hc, hd⟩ := hn.getLast
    have hne : n ≠ [] := by rintro rfl; cases hc
    refine ⟨c, ?_, hd⟩
    rw [List.getLast?_append_of_ne_nil _ (by simp), List.getLast?_cons_of_ne_nil hne, hc]
  | @range a b n left right tag hda hdb ha hb hn =>
    obtain ⟨c, hc, hd⟩ := hn.getLast
    have hne : n ≠ [] := by rintro rfl; cases hc
    refine ⟨c, ?_, hd⟩
    rw [List.getLast?_append_of_ne_nil _ (by simp), List.getLast?_cons_of_ne_nil (by simp),
      List.getLast?_append_of_ne_nil _ (by simp), List.getLast?_cons_of_ne_nil hne, hc]

theorem charCount_lead {lead : CString} {c : UInt8} (h : ∀ d ∈ lead, d = c) :
    charCount lead c = lead.length := by
  rw [charCount, List.countP_eq_length]
  exact fun d hd => decide_eq_true (h d hd)

/-- A token with another one behind it: no dash is skipped in front of it unless there
are more dashes than needed. -/
theorem strtok_first {s tok rest : CString} (h : strtok (chr '-') s = some (tok, rest))
    (hrest : rest ≠ []) :
    charCount rest (chr '-') + 1 ≤ charCount s (chr '-') ∧
      (charCount s (chr '-') ≤ charCount rest (chr '-') + 1 →
        chr '-' ∉ tok ∧ s = tok ++ chr '-' :: rest) := by
  obtain ⟨-, hdash, lead, hlead, hs | ⟨hnil, -⟩⟩ := strtok_some h
  · have hcount : charCount s (chr '-') = lead.length + (charCount rest (chr '-') + 1) := by
      rw [hs, charCount_append, charCount_append, charCount_cons_self, charCount_lead hlead,
        charCount_of_not_mem hdash, Nat.zero_add]
    refine ⟨by omega, fun hle => ⟨hdash, ?_⟩⟩
    have hl : lead = [] := List.length_eq_zero_iff.mp (by omega)
    rw [hs, hl, List.nil_append]
  · exact absurd hnil hrest

/-- The only token of a text without dashes. -/
theorem strtok_only {s tok rest : CString} (h : strtok (chr '-') s = some (tok, rest))
    (hcount : charCount s (chr '-') = 0) : chr '-' ∉ tok ∧ s = tok := by
  obtain ⟨-, hdash, lead, hlead, hs | ⟨-, hs⟩⟩ := strtok_some h
  · rw [hs, charCount_append, charCount_append, charCount_cons_self] at hcount
    omega
  · rw [hs, charCount_append, charCount_lead hlead] at hcount
    have hl : lead = [] := List.length_eq_zero_iff.mp (by omega)
    exact ⟨hdash, by rw [hs, hl, List.nil_append]⟩

theorem ne_nil_of_strtok {s tok rest : CString} (h : strtok (chr '-') s = some (tok, rest)) :
    s ≠ [] := by
  rintro rfl
  cases h

/-- The tokens of an accepted text take up all of it. -/
theorem acceptedText_of_parseTokens {host : ByteOrder} {s : CString} {r : TagRule}
    (hdash : ¬ BadDashes s) (h : parseTokens host s = .ok r) : AcceptedText host s r := by
  unfold parseTokens at h
  split at h
  · cases h
  next a s₁ hfirst =>
  split at h
  · cases h
  next left ha =>
  unfold BadDashes at hdash
  by_cases hone : charCount s (chr '-') = 1
  · simp only [rangeEnd, hone, if_true] at h
    split at h
    · cases h
    next n rest hlast =>
    obtain ⟨hle, hs⟩ := strtok_first hfirst (ne_nil_of_strtok hlast)
    obtain ⟨hda, hs⟩ := hs (by omega)
    obtain ⟨hdn, hn⟩ := strtok_only hlast (by omega)
    split at h
    · cases h
    next tag htag =>
    cases h
    rw [hs, hn]
    exact .single hda ha (tagText_of_tagConverting hdn htag)
  · simp only [rangeEnd, hone, if_false] at h
    cases hsecond : strtok (chr '-') s₁ with
    | none => simp [hsecond] at h
    | some tok =>
      obtain ⟨b, s₂⟩ := tok
      simp only [hsecond] at h
      cases hb : ipConverting host b with
      | none => simp [hb] at h
      | some right =>
        simp only [hb] at h
        split at h
        · cases h
        next n rest hlast =>
        obtain ⟨hle, hs⟩ := strtok_first hfirst (ne_nil_of_strtok hsecond)
        obtain ⟨hle', hs₁⟩ := strtok_first hsecond (ne_nil_of_strtok hlast)
        obtain ⟨hda, hs⟩ := hs (by omega)
        obtain ⟨hdb, hs₁⟩ := hs₁ (by omega)
        obtain ⟨hdn, hn⟩ := strtok_only hlast (by omega)
        split at h
        · cases h
        next tag htag =>
        cases h
        rw [hs, hs₁, hn]
        exact .range hda hdb ha hb (tagText_of_tagConverting hdn htag)

/-! ## Lines -/

theorem parseText_accepted {host : ByteOrder} {s : CString} (hskip : ¬ Skipped s)
    (h : parseText host s = .skip ∨ ∃ r, parseText host s = .rule r) :
    ∃ r, parseText host s = .rule r ∧ AcceptedText host s r := by
  rw [parseText, if_neg hskip] at h ⊢
  split at h
  next hdash => rcases h with h | ⟨r, h⟩ <;> cases h
  next hdash =>
    rw [if_neg hdash]
    cases hr : parseTokens host s with
    | error code =>
      rw [hr] at h
      rcases h with h | ⟨r, h⟩ <;> cases h
    | ok r => exact ⟨r, rfl, acceptedText_of_parseTokens hdash hr⟩

theorem line_eq_indent_append (line : CString) :
    line = line.takeWhile isBlank ++ body line ∧
      ∀ c ∈ line.takeWhile isBlank, isBlank c = true :=
  ⟨List.takeWhile_append_dropWhile.symm, fun _ hc => List.mem_takeWhile_imp hc⟩

/-- What ends a line: its newline or, on an unterminated last line, nothing. -/
def LineEnd (tail : CString) : Prop := tail = [chr '\n'] ∨ tail = []

theorem LineEnd.takeWhile {tail : CString} (h : LineEnd tail) :
    tail.takeWhile (fun c => !isCut c) = [] := by
  rcases h with rfl | rfl <;> decide

theorem body_append_end {line : CString} (hb : body line ≠ []) (tail : CString) :
    body (line ++ tail) = body line ++ tail := by
  rw [body, List.dropWhile_append, if_neg (by simpa [body] using hb)]
  rfl

theorem word_append_end {line tail : CString} (hb : body line ≠ []) (htail : LineEnd tail) :
    word (line ++ tail) = word line := by
  rw [word, body_append_end hb, List.takeWhile_append, htail.takeWhile]
  split
  next hall =>
    rw [word, List.append_nil]
    exact ((List.takeWhile_prefix _).eq_of_length hall).symm
  next => rfl

theorem not_isCut_of_head {line cs : CString} {c : UInt8} (hcons : body line = c :: cs)
    (hh : c ≠ chr '#') (hnl : c ≠ chr '\n') : isCut c = false := by
  have hblank : isBlank c = false := by
    have hd := List.head?_dropWhile_not isBlank line
    rw [← body, hcons] at hd
    simpa using hd
  unfold isBlank at hblank
  unfold isCut
  simp only [decide_eq_false_iff_not, not_or] at hblank ⊢
  exact ⟨hblank.1, hblank.2, hh, hnl⟩

theorem head_lineText {line tail cs : CString} {c : UInt8} (hcons : body line = c :: cs)
    (htail : LineEnd tail) (hh : c ≠ chr '#') (hnl : c ≠ chr '\n') :
    (lineText (line ++ tail)).head? = some c := by
  have hb : body line ≠ [] := by
    rw [hcons]
    exact List.cons_ne_nil c cs
  have hcut := not_isCut_of_head hcons hh hnl
  rw [lineText, word_append_end hb htail, body_append_end hb, word, hcons]
  split
  · rw [List.takeWhile_cons_of_pos (by simp [hcut])]
    rfl
  · rfl

/-- The text that counts on a line which is neither blank nor a comment. -/
theorem textEnds_lineText {line tail : CString} (hnl : chr '\n' ∉ line) (hb : body line ≠ [])
    (htail : LineEnd tail) (hlast : (lineText (line ++ tail)).getLast? ≠ some (chr '\n')) :
    ∃ rest, body line = lineText (line ++ tail) ++ rest ∧
      TextEnds (lineText (line ++ tail)) rest := by
  obtain ⟨post, hsplit, hpost⟩ := body_eq_word_append line
  rw [lineText, word_append_end hb htail, body_append_end hb] at hlast ⊢
  split
  next hlt =>
    refine ⟨post, hsplit, fun c hc => word_not_isCut line c (List.mem_of_mem_take hc), ?_⟩
    cases post with
    | nil => exact .inl rfl
    | cons c cs =>
      refine .inr ⟨hlt, c, rfl, ?_⟩
      have hmem : c ∈ line := body_subset line (by rw [hsplit]; simp)
      have hc := hpost c rfl
      unfold isCut at hc
      unfold isBlank
      simp only [decide_eq_true_eq] at hc ⊢
      rcases hc with h | h | h | h
      · exact .inl (.inl h)
      · exact .inl (.inr h)
      · exact .inr h
      · exact absurd (h ▸ hmem) hnl
  next hge =>
    rcases htail with rfl | rfl
    · -- the newline would be part of the tag
      rw [if_neg hge, List.getLast?_concat] at hlast
      exact absurd rfl hlast
    · refine ⟨[], by simp, fun c hc => word_not_isCut line c ?_, .inl rfl⟩
      rw [List.append_nil, hsplit, List.take_append_of_le_length (by omega)] at hc
      exact List.mem_of_mem_take hc

theorem ruleOf_of_lineText {host : ByteOrder} {piece : List UInt8}
    (h : parsePiece host piece = parseText host (lineText piece)) (hnil : lineText piece = []) :
    ruleOf host piece = none := by
  rw [hnil, parseText_skip (.inl rfl)] at h
  simp only [ruleOf, h]

/-- The piece that is a short line with its end has no NUL and fits the buffer. -/
theorem ShortLine.ne_zero {line tail : CString} (hs : ShortLine line) (htail : LineEnd tail) :
    ∀ c ∈ line ++ tail, c ≠ 0 := by
  intro c hc
  rcases List.mem_append.mp hc with hc | hc
  · exact fun h0 => hs.nul (h0 ▸ hc)
  · rcases htail with rfl | rfl
    · rw [List.mem_singleton.mp hc]
      decide
    · cases hc

theorem ShortLine.length_append_lt {line tail : CString} (hs : ShortLine line)
    (htail : LineEnd tail) : (line ++ tail).length < maxLineLength := by
  have hl := hs.length_le
  rcases htail with rfl | rfl
  · rw [List.length_append, List.length_singleton, maxLineLength]
    omega
  · rw [List.append_nil, maxLineLength]
    omega

/-- A line that parses is accepted, with the rule the loader stores. -/
theorem accepted_of_parses {host : ByteOrder} {line tail : CString} (hs : ShortLine line)
    (htail : LineEnd tail) (hne : line ++ tail ≠ []) (hp : Parses host (line ++ tail)) :
    Accepted host line (ruleOf host (line ++ tail)) := by
  have htext : parsePiece host (line ++ tail) = parseText host (lineText (line ++ tail)) := by
    rcases parsePiece_eq host (hs.ne_zero htail) hne (hs.length_append_lt htail) with h | ⟨h, -⟩
    · exact h
    · rcases hp with hp | ⟨r, hp⟩ <;> rw [hp] at h <;> cases h
  obtain ⟨hline, hindent⟩ := line_eq_indent_append line
  by_cases hb : body line = []
  · -- blank
    have hblank := body_eq_nil_iff.mp hb
    have hbody : body (line ++ tail) = tail := by
      apply body_indent hblank
      rcases htail with rfl | rfl
      · intro c hc
        cases hc
        decide
      · intro c hc
        cases hc
    have hnil : lineText (line ++ tail) = [] := by
      rw [lineText, word, hbody, htail.takeWhile]
      rfl
    rw [ruleOf_of_lineText htext hnil]
    exact .blank hblank
  obtain ⟨c, cs, hcons⟩ := List.exists_cons_of_ne_nil hb
  by_cases hh : c = chr '#'
  · -- comment
    have hnil : lineText (line ++ tail) = [] :=
      lineText_of_head (.inr (by rw [body_append_end hb, hcons, hh]; rfl))
    rw [ruleOf_of_lineText htext hnil, hline, hcons, hh]
    exact .comment hindent
  · -- rule
    have hmem : c ∈ line := body_subset line (by rw [hcons]; exact List.mem_cons_self)
    have hnl : c ≠ chr '\n' := fun h => hs.newline (h ▸ hmem)
    have hskip : ¬ Skipped (lineText (line ++ tail)) := by
      rw [Skipped, head_lineText hcons htail hh hnl]
      simp [hh, hnl]
    obtain ⟨r, hr, hacc⟩ := parseText_accepted hskip
      (by rw [← htext]; exact hp)
    have hlast : (lineText (line ++ tail)).getLast? ≠ some (chr '\n') := by
      obtain ⟨d, hd, hdigit⟩ := hacc.getLast
      rw [hd]
      rintro h
      cases h
      exact absurd hdigit (by decide)
    obtain ⟨rest, hbody, hend⟩ := textEnds_lineText hs.newline hb htail hlast
    have hrule : ruleOf host (line ++ tail) = some r := by
      rw [← htext] at hr
      simp only [ruleOf, hr]
    rw [hrule, hline, hbody]
    exact .rule hindent hend hacc

/-! ## Files -/

/-- The lines of a file, without their newlines. What follows the last newline is a line
too, empty in a file that ends with a newline. -/
def fileLines (content : List UInt8) : List CString := content.splitOn (chr '\n')

theorem reduceOption_cons (r : Option TagRule) (rs : List (Option TagRule)) :
    (r :: rs).reduceOption = r.toList ++ rs.reduceOption := by
  cases r <;> rfl

theorem accepted_lines {host : ByteOrder} {content : List UInt8} (hnul : 0 ∉ content)
    (hlen : ∀ line ∈ fileLines content, line.length ≤ 98)
    (hall : ∀ piece ∈ pieces maxLineLength [] content, Parses host piece) :
    ∃ meanings, List.Forall₂ (Accepted host) (fileLines content) meanings ∧
      rulesOf host (pieces maxLineLength [] content) = meanings.reduceOption := by
  induction hk : content.length using Nat.strong_induction_on generalizing content with
  | _ k ih =>
  unfold fileLines at *
  by_cases hmem : chr '\n' ∈ content
  · obtain ⟨line, rest, rfl, hnl⟩ := List.eq_append_cons_of_mem hmem
    rw [List.splitOn_append_cons_self_of_not_mem hnl] at hlen ⊢
    obtain ⟨hline, hrest⟩ := List.forall_mem_cons.mp hlen
    have hshort : ShortLine line := ⟨fun h => hnul (List.mem_append_left _ h), hnl, hline⟩
    have hnul' : 0 ∉ rest := fun h => hnul (List.mem_append_right _ (List.mem_cons_of_mem _ h))
    have hlt : rest.length < k := by
      rw [← hk, List.length_append, List.length_cons]
      omega
    rw [pieces_line hnl (by rw [List.length_nil, maxLineLength]; omega), List.nil_append] at hall ⊢
    obtain ⟨hfirst, hall⟩ := List.forall_mem_cons.mp hall
    obtain ⟨meanings, hforall, hrules⟩ := ih _ hlt hnul' hrest hall rfl
    refine ⟨_, .cons (accepted_of_parses hshort (.inl rfl) (by simp) hfirst) hforall, ?_⟩
    rw [rulesOf_cons, hrules, reduceOption_cons]
  · rw [List.splitOn_eq_singleton hmem] at hlen ⊢
    have hline := hlen content (List.mem_singleton_self _)
    rw [pieces_last hmem (by rw [List.length_nil, maxLineLength]; omega), List.nil_append] at hall ⊢
    split at hall
    next hnil =>
      subst hnil
      exact ⟨[none], .cons (.blank (by simp)) .nil, rfl⟩
    next hne =>
      have hp := hall content (List.mem_singleton_self _)
      have hacc : Accepted host content (ruleOf host (content ++ [])) :=
        accepted_of_parses ⟨hnul, hmem, hline⟩ (.inr rfl) (by simpa using hne) (by simpa using hp)
      rw [List.append_nil] at hacc
      refine ⟨_, .cons hacc .nil, ?_⟩
      rw [if_neg hne, rulesOf_cons, reduceOption_cons]
      rfl

/-- An accepted file of short lines consists of blank lines, comments and lines of the
accepted format, and its rules are what `inet_aton` and `strtol` read on those lines. -/
theorem tag_rules_load_accepted (host : ByteOrder) (t t' : TagRules) (file : ConfigFile) (n : Int)
    (hnul : 0 ∉ file.content) (hlen : ∀ line ∈ fileLines file.content, line.length ≤ 98)
    (h : tagRulesLoad host t file = some (n, t')) (hn : 0 ≤ n) :
    ∃ meanings, List.Forall₂ (Accepted host) (fileLines file.content) meanings ∧
      (meanings.reduceOption.length : Int) = n ∧ t'.loaded = meanings.reduceOption := by
  obtain ⟨hsize, hle, hload, hall, -⟩ := tagRulesLoad_accepts h hn
  obtain ⟨meanings, hforall, hrules⟩ := accepted_lines hnul hlen hall
  have heq : t'.loaded = meanings.reduceOption := hload.trans hrules
  refine ⟨meanings, hforall, ?_, heq⟩
  rw [← heq, TagRules.loaded, List.length_take, Vector.length_toList, Nat.min_eq_left hle, hsize]

/-! ## The loader accepts more than the documented format -/

def shortAddress : CString := ofString "10.1-5"
def trailingText : CString := ofString "10.0.0.2-7 office"
def hexAddress : CString := ofString "0x0b.0.0.1-+8"

/-- Three lines that are not in the documented format. -/
def undocumentedFile : ConfigFile :=
  ⟨true, printFile [shortAddress, trailingText, hexAddress], none, true⟩

theorem DottedQuad.dots {a : CString} {addr : UInt32} (h : DottedQuad a addr) :
    3 ≤ charCount a (chr '.') := by
  cases h
  simp only [charCount_append, charCount_cons_self]
  omega

theorem DottedQuad.chars {a : CString} {addr : UInt32} (h : DottedQuad a addr) :
    ∀ c ∈ a, isdigit c = true ∨ c = chr '.' := by
  intro x hx
  cases h with
  | mk hp hq hr hs =>
    simp only [List.mem_append, List.mem_cons] at hx
    rcases hx with h | h | h | h | h | h | h
    · exact .inl (hp.digits x h)
    · exact .inr h
    · exact .inl (hq.digits x h)
    · exact .inr h
    · exact .inl (hr.digits x h)
    · exact .inr h
    · exact .inl (hs.digits x h)

/-- What a documented line consists of, up to its comment. -/
def plainChar (c : UInt8) : Bool := isdigit c || c = chr '.' || c = chr '-' || isBlank c

theorem Rest.chars {s : CString} (h : Rest s) (hhash : chr '#' ∉ s) :
    ∀ c ∈ s, isBlank c = true := by
  obtain ⟨blanks, comment, rfl, hblanks, rfl | hcomment⟩ := h
  · simpa using hblanks
  · obtain ⟨cs, rfl⟩ := List.head?_eq_some_iff.mp hcomment
    exact absurd (by simp) hhash

/-- A documented line without a comment has only plain characters, and three dots
when a rule is on it. -/
theorem Documented.shape {host : ByteOrder} {line : CString} {r : Option TagRule}
    (h : Documented host line r) (hhash : chr '#' ∉ line) :
    (∀ c ∈ line, plainChar c = true) ∧
      ((∀ c ∈ line, isBlank c = true) ∨ 3 ≤ charCount line (chr '.')) := by
  have hblank {c : UInt8} (h : isBlank c = true) : plainChar c = true := by simp [plainChar, h]
  have hdigit {c : UInt8} (h : isdigit c = true) : plainChar c = true := by simp [plainChar, h]
  have hquad {c : UInt8} (h : isdigit c = true ∨ c = chr '.') : plainChar c = true := by
    rcases h with h | h <;> simp [plainChar, h]
  have hdash : plainChar (chr '-') = true := by decide
  cases h with
  | blank hb => exact ⟨fun c hc => hblank (hb c hc), .inl hb⟩
  | comment hi => exact absurd (by simp) hhash
  | single hi ha hn hd hr =>
    have hrest := hr.chars (fun h => hhash (by simp [h]))
    have hdots := ha.dots
    refine ⟨fun c hc => ?_, .inr (by rw [charCount_append, charCount_append]; omega)⟩
    simp only [List.mem_append, List.mem_cons] at hc
    rcases hc with hc | hc | rfl | hc | hc
    · exact hblank (hi c hc)
    · exact hquad (ha.chars c hc)
    · exact hdash
    · exact hdigit (hd c hc)
    · exact hblank (hrest c hc)
  | range hi ha hb hn hd hr =>
    have hrest := hr.chars (fun h => hhash (by simp [h]))
    have hdots := ha.dots
    refine ⟨fun c hc => ?_, .inr (by rw [charCount_append, charCount_append]; omega)⟩
    simp only [List.mem_append, List.mem_cons] at hc
    rcases hc with hc | hc | rfl | hc | rfl | hc | hc
    · exact hblank (hi c hc)
    · exact hquad (ha.chars c hc)
    · exact hdash
    · exact hquad (hb.chars c hc)
    · exact hdash
    · exact hdigit (hd c hc)
    · exact hblank (hrest c hc)

theorem undocumentedFile_loads :
    (tagRulesLoad .little .zero undocumentedFile).map Prod.fst = some 3 := by
  decide +kernel

theorem undocumentedFile_short :
    0 ∉ undocumentedFile.content ∧
      ∀ line ∈ fileLines undocumentedFile.content, line.length ≤ 98 := by
  decide +kernel

/-- The loader takes the three lines for rules, as `inet_aton` and `strtol` read them. -/
theorem tag_rules_load_accepted_three :
    ∃ meanings, List.Forall₂ (Accepted .little) (fileLines undocumentedFile.content) meanings ∧
      meanings.reduceOption.length = 3 := by
  obtain ⟨⟨n, t'⟩, h, rfl⟩ := Option.map_eq_some_iff.mp undocumentedFile_loads
  obtain ⟨meanings, hforall, hlen, -⟩ := tag_rules_load_accepted .little .zero t' undocumentedFile 3
    undocumentedFile_short.1 undocumentedFile_short.2 h (by decide)
  exact ⟨meanings, hforall, by exact_mod_cast hlen⟩

/-- The loader returns 3 rules for a file of short lines none of which is documented. -/
theorem tag_rules_load_undocumented :
    (tagRulesLoad .little .zero undocumentedFile).map Prod.fst = some 3 ∧
      0 ∉ undocumentedFile.content ∧
      fileLines undocumentedFile.content = [shortAddress, trailingText, hexAddress, []] ∧
      (∀ line ∈ fileLines undocumentedFile.content, line.length ≤ 98) ∧
      ∀ line ∈ [shortAddress, trailingText, hexAddress], ∀ r, ¬ Documented .little line r := by
  refine ⟨undocumentedFile_loads, undocumentedFile_short.1, by decide +kernel,
    undocumentedFile_short.2, ?_⟩
  intro line hline r h
  simp only [List.mem_cons, List.not_mem_nil, or_false] at hline
  rcases hline with rfl | rfl | rfl
  · -- too few dots
    have hs := (h.shape (by decide)).2
    revert hs
    decide
  · have hs := (h.shape (by decide)).1
    revert hs
    decide
  · have hs := (h.shape (by decide)).1
    revert hs
    decide

end VlanTagger.ConfigParser
