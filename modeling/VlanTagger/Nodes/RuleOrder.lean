import Mathlib.Data.List.Perm.Basic
import VlanTagger.ConfigParser.RoundTrip
import VlanTagger.Nodes.Tagging

/-!
# The order of the rules

`validate_rules` looks at the rules one by one and in pairs, and the lookup of the
tagger takes the first rule that covers an address. So the verdict is the same for every
order of the rules, and where the rules are disjoint the lookup is too.
-/
namespace VlanTagger.Nodes

open Lib Lib.CString ConfigParser

variable {host : ByteOrder} {rules rules' : List TagRule}

/-- No address is shared when no two rules meet, in whatever order they are compared. -/
theorem not_sharedAddress_iff (host : ByteOrder) (rules : List TagRule) :
    ¬ SharedAddress host rules ↔
      rules.Pairwise (fun r r' => ∀ addr, ¬ (r.Covers host addr ∧ r'.Covers host addr)) := by
  rw [List.pairwise_iff_getElem]
  constructor
  · intro h i j hi hj hij addr hcov
    exact h ⟨⟨i, hi⟩, ⟨j, hj⟩, by simpa using Nat.ne_of_lt hij, addr, hcov⟩
  · rintro h ⟨i, j, hne, addr, hi, hj⟩
    rcases Nat.lt_or_gt_of_ne (Fin.val_ne_of_ne hne) with hlt | hlt
    · exact h i j i.isLt j.isLt hlt addr ⟨hi, hj⟩
    · exact h j i j.isLt i.isLt hlt addr ⟨hj, hi⟩

theorem sharedAddress_perm (h : rules.Perm rules') :
    SharedAddress host rules ↔ SharedAddress host rules' := by
  rw [← not_iff_not, not_sharedAddress_iff, not_sharedAddress_iff]
  exact h.pairwise_iff fun hdisj addr hcov => hdisj addr hcov.symm

/-- The three checks come to the same verdict. -/
theorem verdict_perm (h : rules.Perm rules') {code : Int} (hv : Verdict host rules code) :
    Verdict host rules' code := by
  have hexists {P : TagRule → Prop} (hr : ∃ r ∈ rules, P r) : ∃ r ∈ rules', P r := by
    obtain ⟨r, hr, hp⟩ := hr
    exact ⟨r, h.mem_iff.mp hr, hp⟩
  have hforall {P : TagRule → Prop} (hr : ∀ r ∈ rules, P r) : ∀ r ∈ rules', P r :=
    fun r hr' => hr r (h.mem_iff.mpr hr')
  have hshared := @sharedAddress_perm host _ _ h
  cases hv with
  | unordered hbad => exact .unordered (hexists hbad)
  | collision ho hs => exact .collision (hforall ho) (hshared.mp hs)
  | badTag ho hd hbad => exact .badTag (hforall ho) (hshared.not.mp hd) (hexists hbad)
  | valid hval =>
    exact .valid ⟨hforall hval.ordered, hshared.not.mp hval.disjoint, hforall hval.vlanId⟩

/-- Only one code is a verdict. -/
theorem verdict_unique {code code' : Int} (h : Verdict host rules code) (h' : Verdict host rules code') :
    code = code' := by
  have hordered {P : TagRule → Prop} (hall : ∀ r ∈ rules, P r) (hbad : ∃ r ∈ rules, ¬ P r) : False := by
    obtain ⟨r, hr, hn⟩ := hbad
    exact hn (hall r hr)
  cases h with
  | unordered hbad =>
    cases h' with
    | unordered _ => rfl
    | collision ho _ => exact (hordered ho hbad).elim
    | badTag ho _ _ => exact (hordered ho hbad).elim
    | valid hval => exact (hordered hval.ordered hbad).elim
  | collision ho hs =>
    cases h' with
    | unordered hbad => exact (hordered ho hbad).elim
    | collision _ _ => rfl
    | badTag _ hd _ => exact absurd hs hd
    | valid hval => exact absurd hs hval.disjoint
  | badTag ho hd hbad =>
    cases h' with
    | unordered hbad' => exact (hordered ho hbad').elim
    | collision _ hs => exact absurd hs hd
    | badTag _ _ _ => rfl
    | valid hval => exact (hordered hval.vlanId hbad).elim
  | valid hval => exact (h'.of_valid hval).symm

/-- Where the rules are disjoint, the first one that covers an address is the only one. -/
theorem taggerNodeGetTag_perm (h : rules.Perm rules') (hd : ¬ SharedAddress host rules) (addr : UInt32) :
    taggerNodeGetTag addr (rules.map (taggerRule host)) =
      taggerNodeGetTag addr (rules'.map (taggerRule host)) := by
  rcases taggerNodeGetTag_cases host addr rules' with ⟨hzero, hall⟩ | ⟨j, hj, ht⟩
  · rcases taggerNodeGetTag_cases host addr rules with ⟨hzero', -⟩ | ⟨i, hi, -⟩
    · rw [hzero, hzero']
    · exact absurd hi (hall _ (h.mem_iff.mp (List.getElem_mem i.isLt)))
  · rw [ht]
    exact taggerNodeGetTag_eq_tag hd (h.mem_iff.mpr (List.getElem_mem j.isLt)) hj

/-! ## Files -/

/-- A line of at most 98 characters that is a rule when it is the only line. -/
structure RuleLine (host : ByteOrder) (line : CString) : Prop where
  newline : chr '\n' ∉ line
  length_le : line.length ≤ 98
  parses : ∃ r, parsePiece host (line ++ [chr '\n']) = .rule r

/-- What the loader returns for a file of rules, and what it loads. -/
theorem tagRulesLoad_ruleLines (t : TagRules) {lines : List CString}
    (h : ∀ line ∈ lines, RuleLine host line) :
    ∃ rules, rules = rulesOf host (lines.map fun line => line ++ [chr '\n']) ∧
      rules.length = lines.length ∧ ∃ code t', tagRulesLoad host t (fileOf lines) = some (code, t') ∧
        (maxRules < rules.length ∧ code = -6 ∨
          rules.length ≤ maxRules ∧ t'.loaded = rules ∧ ∃ verdict, Verdict host rules verdict ∧
            code = if verdict = 0 then (rules.length : Int) else verdict) := by
  have hlines : (fileOf lines).lines = lines.map fun line => line ++ [chr '\n'] :=
    pieces_printFile fun line hl => ⟨(h line hl).newline, (h line hl).length_le⟩
  have hall : ∀ piece ∈ (fileOf lines).lines, Parses host piece := by
    rw [hlines, List.forall_mem_map]
    exact fun line hl => .inr (h line hl).parses
  refine ⟨_, rfl, ?_, ?_⟩
  · clear hlines hall
    induction lines with
    | nil => rfl
    | cons line rest ih =>
      obtain ⟨hline, hrest⟩ := List.forall_mem_cons.mp h
      obtain ⟨r, hr⟩ := hline.parses
      rw [List.map_cons, rulesOf_rule hr, List.length_cons, List.length_cons, ih hrest]
  · rw [← hlines]
    rcases tagRulesLoad_parses t (fileOf lines) rfl rfl rfl hall with
      ⟨hgt, t', hload⟩ | ⟨hle, verdict, t', hv, hrules, -, hload⟩
    · exact ⟨-6, t', hload, .inl ⟨hgt, rfl⟩⟩
    · exact ⟨_, t', hload, .inr ⟨hle, hrules, verdict, hv, rfl⟩⟩

/-- Two files with the same rule lines, in whatever order, are loaded with the same return
value, and if that is positive the two taggers find the same tag for every address. -/
theorem rule_order_irrelevant {host : ByteOrder} {t₁ t₂ : TagRules} {lines lines' : List CString}
    (h : ∀ line ∈ lines, RuleLine host line) (hperm : lines.Perm lines') :
    ∃ code t t', tagRulesLoad host t₁ (fileOf lines) = some (code, t) ∧
      tagRulesLoad host t₂ (fileOf lines') = some (code, t') ∧
      (code = lines.length ∨ code ∈ ([-6, -11, -12, -13] : List Int)) ∧
      (0 < code → ∃ ctx ctx', taggerNodeCreate host t.loaded = some ctx ∧
        taggerNodeCreate host t'.loaded = some ctx' ∧
        ∀ addr, taggerNodeGetTag addr ctx.tagRules = taggerNodeGetTag addr ctx'.tagRules) := by
  have h' : ∀ line ∈ lines', RuleLine host line := fun line hl => h line (hperm.mem_iff.mpr hl)
  obtain ⟨rules, hrules, hlen, code, t, hload, hcode⟩ := tagRulesLoad_ruleLines t₁ h
  obtain ⟨rules', hrules', hlen', code', t', hload', hcode'⟩ := tagRulesLoad_ruleLines t₂ h'
  have hp : rules.Perm rules' := by
    rw [hrules, hrules']
    exact (hperm.map _).filterMap _
  have hsame := hp.length_eq
  rcases hcode with ⟨hgt, rfl⟩ | ⟨hle, hloaded, verdict, hv, rfl⟩
  · rcases hcode' with ⟨-, rfl⟩ | ⟨hle', -⟩
    · exact ⟨-6, t, t', hload, hload', .inr (by decide), fun hpos => absurd hpos (by decide)⟩
    · omega
  rcases hcode' with ⟨hgt', -⟩ | ⟨-, hloaded', verdict', hv', rfl⟩
  · omega
  have heq := verdict_unique (verdict_perm hp hv) hv'
  subst heq
  rw [← hsame] at hload'
  refine ⟨_, t, t', hload, hload', ?_, fun hpos => ?_⟩
  · rw [← hlen]
    cases hv with
    | unordered _ => exact .inr (by rw [if_neg (by decide)]; decide)
    | collision _ _ => exact .inr (by rw [if_neg (by decide)]; decide)
    | badTag _ _ _ => exact .inr (by rw [if_neg (by decide)]; decide)
    | valid _ => exact .inl (if_pos rfl)
  · rcases hv.neg_or_valid with hneg | ⟨hzero, hval⟩
    · rw [if_neg (by omega)] at hpos
      omega
    rw [if_pos hzero] at hpos
    have hne : rules ≠ [] := List.ne_nil_of_length_pos (by omega)
    have hne' : rules' ≠ [] := List.ne_nil_of_length_pos (by omega)
    refine ⟨⟨rules.map (taggerRule host)⟩, ⟨rules'.map (taggerRule host)⟩, ?_, ?_,
      taggerNodeGetTag_perm hp hval.disjoint⟩
    · rw [taggerNodeCreate, hloaded, if_neg hne]
    · rw [taggerNodeCreate, hloaded', if_neg hne']

/-- Two lines in either order. -/
theorem rule_order_irrelevant_two :
    ∃ code t t', tagRulesLoad .little .zero (fileOf [ofString "10.0.0.1-7", ofString " 10.0.0.2-8 #"]) =
        some (code, t) ∧
      tagRulesLoad .little .zero (fileOf [ofString " 10.0.0.2-8 #", ofString "10.0.0.1-7"]) =
        some (code, t') := by
  have hlines : ∀ line ∈ [ofString "10.0.0.1-7", ofString " 10.0.0.2-8 #"], RuleLine .little line := by
    simp only [List.forall_mem_cons, List.not_mem_nil, false_imp_iff, implies_true, and_true]
    exact ⟨⟨by decide, by decide, ⟨0x0100000a, 0x0100000a, 7⟩, by rfl⟩,
      ⟨by decide, by decide, ⟨0x0200000a, 0x0200000a, 8⟩, by rfl⟩⟩
  obtain ⟨code, t, t', hload, hload', -⟩ :=
    @rule_order_irrelevant _ .zero .zero _ _ hlines (.swap _ _ [])
  exact ⟨code, t, t', hload, hload'⟩

end VlanTagger.Nodes
