import VlanTagger.ConfigParser.Lines
import VlanTagger.ConfigParser.Validation
import VlanTagger.Lib.Decimal

/-!
# Loading undoes printing

A rule is printed in the documented format, on a line of its own that may start
with blanks and end with a comment. Comment lines and blank lines may stand
anywhere. The loader gets back exactly the rules that were printed.
-/
namespace VlanTagger.ConfigParser

open Lib Lib.CString

/-- A rule as a user means it: addresses in host order, a range that is not empty and
a VLAN ID. -/
structure SourceRule where
  left : UInt32
  right : UInt32
  vlan : Nat
  ordered : left ≤ right
  vlan_le : vlan ≤ 4095

def SourceRule.Covers (r : SourceRule) (addr : UInt32) : Prop := r.left ≤ addr ∧ addr ≤ r.right

/-- The rule in the form the loader stores it. -/
def SourceRule.stored (host : ByteOrder) (r : SourceRule) : TagRule :=
  ⟨host.htonl r.left, host.htonl r.right, r.vlan⟩

/-- The address `a.b.c.d` in plain decimal. -/
def quad (addr : UInt32) : CString :=
  dottedQuad (addr.toNat / 16777216) (addr.toNat / 65536 % 256) (addr.toNat / 256 % 256)
    (addr.toNat % 256)

inductive RuleText (r : SourceRule) : CString → Prop
  | range : RuleText r (quad r.left ++ chr '-' :: (quad r.right ++ chr '-' :: decimal r.vlan))
  | single (h : r.left = r.right) : RuleText r (quad r.left ++ chr '-' :: decimal r.vlan)

/-- Nothing, or a blank, tab or `#` and any further text. -/
def Trailer (s : CString) : Prop := ∀ c, s.head? = some c → isBlank c = true ∨ c = chr '#'

/-- A line of the file, without its newline, and the rule on it. -/
inductive PrintedLine : Option SourceRule → CString → Prop
  | rule {r : SourceRule} {indent text trailer : CString} (hi : ∀ c ∈ indent, isBlank c = true)
      (htext : RuleText r text) (htrailer : Trailer trailer) :
      PrintedLine (some r) (indent ++ (text ++ trailer))
  | comment {indent rest : CString} (hi : ∀ c ∈ indent, isBlank c = true) :
      PrintedLine none (indent ++ chr '#' :: rest)
  | blank {indent : CString} (hi : ∀ c ∈ indent, isBlank c = true) : PrintedLine none indent

/-- A line without NUL and newline that `fgets` reads in one piece. -/
structure ShortLine (line : CString) : Prop where
  nul : 0 ∉ line
  newline : chr '\n' ∉ line
  length_le : line.length ≤ 98

theorem shortLine_iff (line : CString) :
    ShortLine line ↔ 0 ∉ line ∧ chr '\n' ∉ line ∧ line.length ≤ 98 :=
  ⟨fun h => ⟨h.nul, h.newline, h.length_le⟩, fun h => ⟨h.1, h.2.1, h.2.2⟩⟩

instance (line : CString) : Decidable (ShortLine line) := decidable_of_iff _ (shortLine_iff line).symm

def printFile (lines : List CString) : List UInt8 := lines.flatMap (fun line => line ++ [chr '\n'])

/-- The file that consists of the lines. -/
def fileOf (lines : List CString) : ConfigFile := ⟨true, printFile lines, none, true⟩

/-! ## The text of a rule -/

theorem inetAton_quad (host : ByteOrder) (addr : UInt32) :
    inetAton host (quad addr) = some (host.htonl addr) := by
  have hlt := addr.toNat_lt
  rw [inetAton, quad, inetNumber_dottedQuad (by omega) (by omega) (by omega) (by omega)]
  have hsum : addr.toNat / 16777216 * 16777216 + addr.toNat / 65536 % 256 * 65536 +
      addr.toNat / 256 % 256 * 256 + addr.toNat % 256 = addr.toNat := by omega
  rw [hsum, Option.map_some, UInt32.ofNat_toNat]

theorem tagConverting_decimal {n : Nat} (h : n ≤ 4095) : tagConverting (decimal n) = some n := by
  have hlow : ¬ ((n : Int) < intMin) := by unfold intMin; omega
  have hhigh : ¬ (intMax < (n : Int)) := by unfold intMax; omega
  unfold tagConverting
  rw [strtol_decimal (by omega)]
  simp [hlow, hhigh]

theorem isCut_of_isdigit {c : UInt8} (h : isdigit c = true) : isCut c = false := by
  rw [isdigit_iff] at h
  rw [isCut, decide_eq_false_iff_not]
  rintro (rfl | rfl | rfl | rfl) <;> revert h <;> decide

theorem isBlank_of_not_isCut {c : UInt8} (h : isCut c = false) : isBlank c = false := by
  by_contra hb
  rw [isCut_of_isBlank (by simpa using hb)] at h
  cases h

theorem dash_not_mem_quad (addr : UInt32) : chr '-' ∉ quad addr := by
  intro h
  rcases mem_dottedQuad h with h | h
  · exact absurd h (by decide)
  · exact absurd h (by decide)

theorem dash_not_mem_decimal (n : Nat) : chr '-' ∉ decimal n := fun h =>
  absurd (decimal_isdigit n _ h) (by decide)

theorem quad_ne_nil (addr : UInt32) : quad addr ≠ [] := dottedQuad_ne_nil _ _ _ _

theorem charCount_append (s s' : CString) (c : UInt8) :
    charCount (s ++ s') c = charCount s c + charCount s' c := List.countP_append ..

theorem charCount_of_not_mem {s : CString} {c : UInt8} (h : c ∉ s) : charCount s c = 0 := by
  rw [charCount, List.countP_eq_zero]
  intro d hd
  simp only [decide_eq_true_eq]
  exact fun he => h (he ▸ hd)

theorem charCount_cons_self (s : CString) (c : UInt8) : charCount (c :: s) c = charCount s c + 1 := by
  simp [charCount]

/-- A text of two dash-free parts: one address and the tag. -/
theorem parseText_single {host : ByteOrder} {a n : CString} {left : UInt32} {tag : Int}
    (ha : a ≠ []) (hn : n ≠ []) (hda : chr '-' ∉ a) (hdn : chr '-' ∉ n)
    (hskip : ¬ Skipped (a ++ chr '-' :: n)) (hip : inetAton host a = some left)
    (htag : tagConverting n = some tag) :
    parseText host (a ++ chr '-' :: n) = .rule ⟨left, left, tag⟩ := by
  have hcount : charCount (a ++ chr '-' :: n) (chr '-') = 1 := by
    rw [charCount_append, charCount_cons_self, charCount_of_not_mem hda, charCount_of_not_mem hdn]
  have hdash : ¬ BadDashes (a ++ chr '-' :: n) := by
    unfold BadDashes
    omega
  rw [parseText, if_neg hskip, if_neg hdash]
  simp only [parseTokens, strtok_cons ha hda, ipConverting, hip, hcount, rangeEnd, if_true,
    strtok_last hn hdn, htag]

/-- A text of three dash-free parts: two addresses and the tag. -/
theorem parseText_range {host : ByteOrder} {a b n : CString} {left right : UInt32} {tag : Int}
    (ha : a ≠ []) (hb : b ≠ []) (hn : n ≠ []) (hda : chr '-' ∉ a) (hdb : chr '-' ∉ b)
    (hdn : chr '-' ∉ n) (hskip : ¬ Skipped (a ++ chr '-' :: (b ++ chr '-' :: n)))
    (hleft : inetAton host a = some left) (hright : inetAton host b = some right)
    (htag : tagConverting n = some tag) :
    parseText host (a ++ chr '-' :: (b ++ chr '-' :: n)) = .rule ⟨left, right, tag⟩ := by
  have hcount : charCount (a ++ chr '-' :: (b ++ chr '-' :: n)) (chr '-') = 2 := by
    rw [charCount_append, charCount_cons_self, charCount_append, charCount_cons_self,
      charCount_of_not_mem hda, charCount_of_not_mem hdb, charCount_of_not_mem hdn]
  have hdash : ¬ BadDashes (a ++ chr '-' :: (b ++ chr '-' :: n)) := by
    unfold BadDashes
    omega
  rw [parseText, if_neg hskip, if_neg hdash]
  simp only [parseTokens, strtok_cons ha hda, ipConverting, hleft, hcount, rangeEnd,
    strtok_cons hb hdb, hright, strtok_last hn hdn, htag, show ¬ (2 = 1) by decide, if_false]

theorem head_ruleText {r : SourceRule} {text : CString} (h : RuleText r text) (rest : CString) :
    (text ++ rest).head?.any isdigit = true := by
  cases h with
  | range =>
    rw [quad, List.append_assoc]
    exact head_dottedQuad_isdigit ..
  | single _ =>
    rw [quad, List.append_assoc]
    exact head_dottedQuad_isdigit ..

theorem not_skipped_of_isdigit {s : CString} (h : s.head?.any isdigit = true) : ¬ Skipped s := by
  rintro (hs | hs | hs) <;> rw [hs] at h <;> revert h <;> decide

/-- The text of a rule is parsed as the rule. -/
theorem parseText_ruleText (host : ByteOrder) {r : SourceRule} {text : CString}
    (h : RuleText r text) : parseText host text = .rule (r.stored host) := by
  have hskip : ¬ Skipped text := by
    have hd := head_ruleText h []
    rw [List.append_nil] at hd
    exact not_skipped_of_isdigit hd
  cases h with
  | range =>
    exact parseText_range (quad_ne_nil _) (quad_ne_nil _) (decimal_ne_nil _)
      (dash_not_mem_quad _) (dash_not_mem_quad _) (dash_not_mem_decimal _) hskip
      (inetAton_quad host _) (inetAton_quad host _) (tagConverting_decimal r.vlan_le)
  | single heq =>
    rw [parseText_single (quad_ne_nil _) (decimal_ne_nil _) (dash_not_mem_quad _)
      (dash_not_mem_decimal _) hskip (inetAton_quad host _) (tagConverting_decimal r.vlan_le),
      SourceRule.stored, ← heq]

theorem quad_not_isCut (addr : UInt32) : ∀ c ∈ quad addr, isCut c = false := by
  intro c hc
  rcases mem_dottedQuad hc with h | rfl
  · exact isCut_of_isdigit h
  · decide

theorem ruleText_not_isCut {r : SourceRule} {text : CString} (h : RuleText r text) :
    ∀ c ∈ text, isCut c = false := by
  have hdash : isCut (chr '-') = false := by decide
  have hnum : ∀ c ∈ decimal r.vlan, isCut c = false := fun c hc =>
    isCut_of_isdigit (decimal_isdigit _ c hc)
  intro c hc
  cases h with
  | range =>
    simp only [List.mem_append, List.mem_cons] at hc
    rcases hc with hc | rfl | hc | rfl | hc
    · exact quad_not_isCut _ c hc
    · exact hdash
    · exact quad_not_isCut _ c hc
    · exact hdash
    · exact hnum c hc
  | single _ =>
    simp only [List.mem_append, List.mem_cons] at hc
    rcases hc with hc | rfl | hc
    · exact quad_not_isCut _ c hc
    · exact hdash
    · exact hnum c hc

theorem length_quad_le (addr : UInt32) : (quad addr).length ≤ 15 := by
  have hlt := addr.toNat_lt
  exact length_dottedQuad_le (by omega) (by omega) (by omega) (by omega)

/-- The longest text of a rule ends inside the window of `line_editor`. -/
theorem length_ruleText_lt {r : SourceRule} {text : CString} (h : RuleText r text) :
    text.length < maxRuleContentLength := by
  have hl := length_quad_le r.left
  have hr := length_quad_le r.right
  have hn : (decimal r.vlan).length ≤ 4 := length_decimal_le (by decide) (by have := r.vlan_le; omega)
  unfold maxRuleContentLength
  cases h with
  | range =>
    simp only [List.length_append, List.length_cons]
    omega
  | single _ =>
    simp only [List.length_append, List.length_cons]
    omega

/-! ## The lines -/

theorem body_indent {indent : CString} (hi : ∀ c ∈ indent, isBlank c = true) {s : CString}
    (hs : ∀ c, s.head? = some c → isBlank c = false) : body (indent ++ s) = s := by
  rw [body, List.dropWhile_append_of_pos hi]
  cases s with
  | nil => rfl
  | cons c cs => rw [List.dropWhile_cons_of_neg (by simp [hs c rfl])]

/-- A line whose first word ends inside the window is parsed as that word. -/
theorem parsePiece_of_word (host : ByteOrder) {piece w rest : List UInt8} {c : UInt8}
    (hnul : ∀ c ∈ piece, c ≠ 0) (hlen : piece.length < maxLineLength)
    (hbody : body piece = w ++ c :: rest) (hw : ∀ d ∈ w, isCut d = false) (hc : isCut c = true)
    (hlt : w.length < maxRuleContentLength) : parsePiece host piece = parseText host w := by
  have hword : word piece = w := by
    rw [word, hbody, List.takeWhile_append_of_pos (by simpa using hw),
      List.takeWhile_cons_of_neg (by simp [hc]), List.append_nil]
  have hne : piece ≠ [] := by
    rintro rfl
    simp [body] at hbody
  rcases parsePiece_eq host hnul hne hlen with h | ⟨-, h⟩
  · rw [h, lineText, hword, if_pos hlt]
  · rw [hword, hbody] at h
    simp at h

/-- With its newline, the end of a line starts with a cut. -/
theorem Trailer.cut {trailer : CString} (h : Trailer trailer) :
    ∃ c rest, trailer ++ [chr '\n'] = c :: rest ∧ isCut c = true := by
  cases trailer with
  | nil => exact ⟨_, _, rfl, by decide⟩
  | cons c cs =>
    refine ⟨c, _, rfl, ?_⟩
    rcases h c rfl with hb | rfl
    · exact isCut_of_isBlank hb
    · decide

theorem PrintedLine.parsePiece {r : Option SourceRule} {line : CString} (h : PrintedLine r line)
    (host : ByteOrder) (hs : ShortLine line) :
    parsePiece host (line ++ [chr '\n']) =
      match r with
      | none => .skip
      | some r => .rule (r.stored host) := by
  have hnul : ∀ c ∈ line ++ [chr '\n'], c ≠ 0 := by
    intro c hc
    rcases List.mem_append.mp hc with hc | hc
    · exact fun h0 => hs.nul (h0 ▸ hc)
    · rw [List.mem_singleton.mp hc]
      decide
  have hlen : (line ++ [chr '\n']).length < maxLineLength := by
    have hl := hs.length_le
    rw [List.length_append, List.length_singleton, maxLineLength]
    omega
  cases h with
  | @rule r indent text trailer hi htext htrailer =>
    have hhead : ∀ c, (text ++ (trailer ++ [chr '\n'])).head? = some c → isBlank c = false := by
      intro c hc
      have hd := head_ruleText htext (trailer ++ [chr '\n'])
      rw [hc] at hd
      exact isBlank_of_not_isCut (isCut_of_isdigit (by simpa using hd))
    have hbody : body (indent ++ (text ++ trailer) ++ [chr '\n']) =
        text ++ (trailer ++ [chr '\n']) := by
      rw [List.append_assoc, List.append_assoc, body_indent hi hhead]
    obtain ⟨c, rest, hend, hc⟩ := htrailer.cut
    rw [hend] at hbody
    rw [parsePiece_of_word host hnul hlen hbody (ruleText_not_isCut htext) hc
      (length_ruleText_lt htext)]
    exact parseText_ruleText host htext
  | @comment indent rest hi =>
    have hbody : body (indent ++ chr '#' :: rest ++ [chr '\n']) =
        [] ++ chr '#' :: (rest ++ [chr '\n']) := by
      rw [List.append_assoc, body_indent hi (by intro c hc; cases hc; decide)]
      rfl
    rw [parsePiece_of_word host hnul hlen hbody (by simp) (by decide) (by decide)]
    exact parseText_skip (.inl rfl)
  | blank hi =>
    have hbody : body (line ++ [chr '\n']) = [] ++ chr '\n' :: [] :=
      body_indent hi (by intro c hc; cases hc; decide)
    rw [parsePiece_of_word host hnul hlen hbody (by simp) (by decide) (by decide)]
    exact parseText_skip (.inl rfl)

theorem pieces_printFile {lines : List CString}
    (h : ∀ line ∈ lines, chr '\n' ∉ line ∧ line.length ≤ 98) :
    pieces maxLineLength [] (printFile lines) = lines.map (fun line => line ++ [chr '\n']) := by
  induction lines with
  | nil => rfl
  | cons line rest ih =>
    obtain ⟨⟨hnl, hlen⟩, hrest⟩ := List.forall_mem_cons.mp h
    rw [printFile, List.flatMap_cons, List.append_assoc, List.singleton_append,
      pieces_line hnl (by rw [List.length_nil, maxLineLength]; omega)]
    exact congrArg _ (ih hrest)

/-- The rules of a printed file are the rules that were printed. -/
theorem rulesOf_printed (host : ByteOrder) {lines : List (Option SourceRule × CString)}
    (h : ∀ l ∈ lines, PrintedLine l.1 l.2 ∧ ShortLine l.2) :
    (∀ piece ∈ lines.map (fun l => l.2 ++ [chr '\n']), Parses host piece) ∧
      rulesOf host (lines.map fun l => l.2 ++ [chr '\n']) =
        (lines.filterMap Prod.fst).map (SourceRule.stored host) := by
  induction lines with
  | nil => exact ⟨by simp, rfl⟩
  | cons l rest ih =>
    obtain ⟨⟨hline, hshort⟩, hrest⟩ := List.forall_mem_cons.mp h
    obtain ⟨hall, hrules⟩ := ih hrest
    have hp := hline.parsePiece host hshort
    obtain ⟨r, line⟩ := l
    rw [List.map_cons]
    cases r with
    | none =>
      refine ⟨List.forall_mem_cons.mpr ⟨.inl hp, hall⟩, ?_⟩
      rw [rulesOf_skip hp, hrules]
      rfl
    | some r =>
      refine ⟨List.forall_mem_cons.mpr ⟨.inr ⟨_, hp⟩, hall⟩, ?_⟩
      rw [rulesOf_rule hp, hrules]
      rfl

theorem covers_stored (host : ByteOrder) (r : SourceRule) (addr : UInt32) :
    (r.stored host).Covers host addr ↔ r.Covers addr := by
  simp only [TagRule.Covers, SourceRule.stored, SourceRule.Covers, ByteOrder.ntohl_htonl]

/-- Disjoint source rules are valid in the form the loader stores them. -/
theorem valid_stored (host : ByteOrder) {rules : List SourceRule}
    (hdisj : rules.Pairwise fun r r' => ∀ addr, ¬ (r.Covers addr ∧ r'.Covers addr)) :
    Valid host (rules.map (SourceRule.stored host)) := by
  refine ⟨?_, ?_, ?_⟩
  · rw [List.forall_mem_map]
    intro r _
    simpa only [TagRule.Ordered, SourceRule.stored, ByteOrder.ntohl_htonl] using r.ordered
  · rintro ⟨i, j, hne, addr, hi, hj⟩
    rw [List.pairwise_iff_getElem] at hdisj
    simp only [Fin.getElem_fin, List.getElem_map, covers_stored] at hi hj
    have hli : i.val < rules.length := by simpa using i.isLt
    have hlj : j.val < rules.length := by simpa using j.isLt
    rcases Nat.lt_or_gt_of_ne (Fin.val_ne_of_ne hne) with hlt | hlt
    · exact hdisj i j hli hlj hlt addr ⟨hi, hj⟩
    · exact hdisj j i hlj hli hlt addr ⟨hj, hi⟩
  · rw [List.forall_mem_map]
    intro r _
    have hv := r.vlan_le
    simp only [TagRule.VlanId, SourceRule.stored]
    omega

/-- A printed rule file is loaded as the rules that were printed, in file order and in
network byte order. -/
theorem tag_rules_load_print (host : ByteOrder) (t : TagRules) (rules : List SourceRule)
    (lines : List (Option SourceRule × CString)) (hn : rules.length ≤ maxRules)
    (hdisj : rules.Pairwise fun r r' => ∀ addr, ¬ (r.Covers addr ∧ r'.Covers addr))
    (hprint : ∀ l ∈ lines, PrintedLine l.1 l.2 ∧ ShortLine l.2)
    (horder : lines.filterMap Prod.fst = rules) :
    ∃ t', tagRulesLoad host t ⟨true, printFile (lines.map Prod.snd), none, true⟩ =
        some ((rules.length : Int), t') ∧
      t'.size = rules.length ∧ t'.loaded = rules.map (SourceRule.stored host) := by
  have hlines : ConfigFile.lines ⟨true, printFile (lines.map Prod.snd), none, true⟩ =
      lines.map (fun l => l.2 ++ [chr '\n']) := by
    rw [ConfigFile.lines, pieces_printFile ?_, List.map_map]
    · rfl
    · rw [List.forall_mem_map]
      exact fun l hl => ⟨(hprint l hl).2.newline, (hprint l hl).2.length_le⟩
  obtain ⟨hall, hrules⟩ := rulesOf_printed host hprint
  rw [horder] at hrules
  have hlen : (rulesOf host (lines.map fun l => l.2 ++ [chr '\n'])).length = rules.length := by
    rw [hrules, List.length_map]
  rcases tagRulesLoad_parses t ⟨true, printFile (lines.map Prod.snd), none, true⟩ rfl rfl rfl
      (by rw [hlines]; exact hall) with ⟨hgt, -⟩ | ⟨-, code, t', hv, hload, hsize, h⟩
  · rw [hlines, hlen] at hgt
    omega
  · rw [hlines] at hv hload hsize h
    rw [hrules] at hv hload
    rw [hlen] at hsize h
    rw [hv.of_valid (valid_stored host hdisj), if_pos rfl] at h
    exact ⟨t', h, hsize, hload⟩

def officePool : SourceRule := ⟨0x0a000000, 0x0a0000ff, 7, by decide, by decide⟩
def printer : SourceRule := ⟨0x0a000101, 0x0a000101, 4095, by decide, by decide⟩

/-- A comment, two rules and a blank line. -/
def printedLines : List (Option SourceRule × CString) :=
  [(none, ofString "# pool-list"),
   (some officePool, ofString "\t" ++ ((quad 0x0a000000 ++ chr '-' :: (quad 0x0a0000ff ++
      chr '-' :: decimal 7)) ++ ofString " # office-1")),
   (none, []),
   (some printer, [] ++ ((quad 0x0a000101 ++ chr '-' :: decimal 4095) ++ []))]

theorem tag_rules_load_print_two :
    ∃ t', tagRulesLoad .little .zero ⟨true, printFile (printedLines.map Prod.snd), none, true⟩ =
        some (2, t') ∧
      t'.loaded = [⟨0x0000000a, 0xff00000a, 7⟩, ⟨0x0101000a, 0x0101000a, 4095⟩] := by
  have hdisj : [officePool, printer].Pairwise
      fun r r' => ∀ addr, ¬ (r.Covers addr ∧ r'.Covers addr) := by
    refine List.pairwise_pair.mpr fun addr ⟨h, h'⟩ => ?_
    simp only [SourceRule.Covers, officePool, printer, UInt32.le_iff_toNat_le] at h h'
    have h1 : (0x0a0000ff : UInt32).toNat = 167772415 := rfl
    have h2 : (0x0a000101 : UInt32).toNat = 167772417 := rfl
    omega
  have hprint : ∀ l ∈ printedLines, PrintedLine l.1 l.2 ∧ ShortLine l.2 := by
    simp only [printedLines, List.forall_mem_cons, List.not_mem_nil, false_imp_iff, implies_true,
      and_true]
    refine ⟨⟨@PrintedLine.comment [] _ (by simp), ?_⟩, ⟨.rule ?_ .range ?_, ?_⟩,
      ⟨.blank (by simp), ?_⟩, ⟨.rule (by simp) (.single rfl) (by intro c hc; cases hc), ?_⟩⟩
    · decide +kernel
    · decide +kernel
    · intro c hc
      cases hc
      decide
    · decide +kernel
    · decide +kernel
    · decide +kernel
  obtain ⟨t', h, -, hload⟩ := tag_rules_load_print .little .zero [officePool, printer] printedLines
    (by decide) hdisj hprint rfl
  exact ⟨t', h, hload⟩

end VlanTagger.ConfigParser
