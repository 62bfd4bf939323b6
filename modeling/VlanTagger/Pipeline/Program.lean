import VlanTagger.ConfigParser.RoundTrip
import VlanTagger.Pipeline.Completion

/-!
# From the configuration file to the wire

`main` of main.c loads the rules, builds the pipeline and starts it. A user writes rules for
ranges of addresses in the documented format; `Asked` says, in the user's terms, which frame
is to leave for a frame that comes in. The program started on that file hands exactly such
frames to `sendto`, each for one captured frame, and when it has come to rest it has done so
for every captured frame that it did not drop at a full queue or find too long.
-/
namespace VlanTagger.Pipeline

open Lib Nodes ConfigParser

/-! ## `main` -/

/-- `fill_tag_rules` on the file with this content: 1 on an error. -/
def fillTagRules (host : ByteOrder) (tagRules : TagRules) (config : ConfigFile) :
    Option (Int × TagRules) :=
  match tagRulesLoad host tagRules config with
  | none => none
  | some (result, tagRules) => some (if result < 0 then 1 else 0, tagRules)

/-- `pipeline_build` -/
def pipelineBuild (cb : Graph → Int × Graph) (g : Graph) : Int × Graph :=
  match cb g with
  | (ret, g) => (if ret ≠ 0 then 1 else 0, g)

theorem pipelineBuild_eq {cb : Graph → Int × Graph} {g : Graph} :
    pipelineBuild cb g = (if (cb g).1 ≠ 0 then 1 else 0, (cb g).2) := rfl

/-- `main` from the loading of the rules to `pipeline_start`: the pipeline that it starts, or
none inside where it exits with `EXIT_FAILURE`; none where the loader is undefined. -/
def mainStart (creates : Nat → Bool) (host : ByteOrder) (config : ConfigFile) : Option (Option Graph) :=
  match fillTagRules host .zero config with
  | none => none
  | some (ret, globalTagRules) =>
    if ret ≠ 0 then some none
    else
      match pipelineBuild (fun g => vlanTaggerPattern creates host g globalTagRules.loaded) pipelineInit with
      | (ret, g) => if ret ≠ 0 then some none else some (some g)

/-- Without a rule the pattern gets no tagger. -/
theorem vlanTaggerPattern_noRules (creates : Nat → Bool) (host : ByteOrder) (g : Graph) :
    (vlanTaggerPattern creates host g []).1 = 1 := by
  have hnone : taggerNodeCreate host [] = none := if_pos rfl
  unfold vlanTaggerPattern
  rw [hnone]
  simp only [Option.map_none, createNodes]
  cases hsniffer : nodeCreate creates g (.sniffer 0) with
  | mk n g' => cases n <;> rfl

/-- When every creation succeeds, `main` starts the network of the program on the rules that
were loaded, but exits when the file has no rule or is refused. -/
theorem mainStart_eq {creates : Nat → Bool} (hcreates : ∀ i, creates i = true) {host : ByteOrder}
    {config : ConfigFile} {n : Int} {t : TagRules} (hload : tagRulesLoad host .zero config = some (n, t)) :
    mainStart creates host config = some (if 0 < n then
      some (vlanTaggerGraph ⟨t.loaded.map (taggerRule host)⟩) else none) := by
  unfold mainStart fillTagRules
  rw [hload]
  by_cases hneg : n < 0
  · have hpos : ¬ 0 < n := by omega
    simp only [hneg, hpos, if_true, if_false, ne_eq, one_ne_zero, not_false_eq_true]
  · obtain ⟨hsize, hmax, -, -, -⟩ := tagRulesLoad_accepts hload (by omega)
    have hlen : t.loaded.length = t.size := by
      rw [TagRules.loaded, List.length_take, Vector.length_toList, Nat.min_eq_left hmax]
    by_cases hpos : 0 < n
    · have hne : t.loaded ≠ [] := List.ne_nil_of_length_pos (by omega)
      have hbuild : pipelineBuild (fun g => vlanTaggerPattern creates host g t.loaded) pipelineInit =
          (0, vlanTaggerGraph ⟨t.loaded.map (taggerRule host)⟩) := by
        rw [pipelineBuild_eq, vlanTaggerPattern_builds hcreates (if_neg hne)]
        rfl
      simp only [hneg, hpos, hbuild, if_true, if_false, ne_eq, not_true_eq_false]
    · have hnil : t.loaded = [] := List.eq_nil_of_length_eq_zero (by omega)
      have hbuild : (pipelineBuild (fun g => vlanTaggerPattern creates host g t.loaded) pipelineInit).1 = 1 := by
        have hone := vlanTaggerPattern_noRules creates host pipelineInit
        rw [pipelineBuild_eq, hnil]
        exact if_pos (by rw [hone]; exact one_ne_zero)
      simp only [hneg, hpos, hbuild, if_true, if_false, ne_eq, one_ne_zero, not_true_eq_false, not_false_eq_true]

/-! ## What the user asks for -/

/-- The frame `f` is to leave for `p`: `p` is an IPv4 packet to an address of a rule, and `f`
is `p` with the VLAN ID of that rule behind its MAC addresses. The address 0.0.0.0 and the
VLAN ID 0 stand for no address and no tag. -/
def Asked (rules : List SourceRule) (p f : List UInt8) : Prop :=
  34 ≤ p.length ∧ etherType p = 0x0800 ∧ destination p ≠ 0 ∧
    ∃ r ∈ rules, r.Covers (destination p) ∧ r.vlan ≠ 0 ∧ f = insertTag p r.vlan

/-- The tagger context for these rules. -/
def contextOf (host : ByteOrder) (rules : List SourceRule) : TaggerContext :=
  ⟨(rules.map (SourceRule.stored host)).map (taggerRule host)⟩

section

variable {host : ByteOrder} {rules : List SourceRule}
  (hdisj : rules.Pairwise fun r r' => ∀ addr, ¬ (r.Covers addr ∧ r'.Covers addr))

include hdisj

/-- The tagger does what the user asks for. -/
theorem tagFrame_iff_asked (p f : List UInt8) : tagFrame (contextOf host rules) p = some f ↔ Asked rules p f := by
  have hval := valid_stored host hdisj
  -- what the rule that covers the destination makes of the frame
  have hrule : ∀ r ∈ rules, r.Covers (destination p) → 34 ≤ p.length → etherType p = 0x0800 →
      tagFrame (contextOf host rules) p =
        if destination p = 0 ∨ r.vlan = 0 then none else some (insertTag p r.vlan) := by
    intro r hr hcov hlen hip
    have hvid : vlanIdOf (r.vlan : Int) = r.vlan := by
      have hvlan := r.vlan_le
      exact Int.ofNat.inj (vlanIdOf_of_vlanId (by omega) (by omega))
    have hcovered := tagFrame_covered hval hlen hip (List.mem_map_of_mem hr)
      ((covers_stored host r _).mpr hcov)
    have hzero : ((r.stored host).tag = 0) ↔ r.vlan = 0 := Int.natCast_eq_zero
    rw [contextOf, hcovered]
    simp only [hzero]
    exact congrArg (fun v => if destination p = 0 ∨ r.vlan = 0 then none else some (insertTag p v)) hvid
  constructor
  · intro h
    obtain ⟨hlen, hip, i, hcov, -, -, -⟩ := tagFrame_some hval h
    obtain ⟨r, hr, hstored⟩ := List.mem_map.mp (List.get_mem _ i)
    rw [← hstored, covers_stored] at hcov
    rw [hrule r hr hcov hlen hip] at h
    by_cases hzero : destination p = 0 ∨ r.vlan = 0
    · rw [if_pos hzero] at h
      cases h
    · rw [if_neg hzero] at h
      cases h
      exact ⟨hlen, hip, fun h0 => hzero (.inl h0), r, hr, hcov, fun h0 => hzero (.inr h0), rfl⟩
  · intro h
    obtain ⟨hlen, hip, hdest, r, hr, hcov, hvlan, rfl⟩ := h
    rw [hrule r hr hcov hlen hip, if_neg (not_or.mpr ⟨hdest, hvlan⟩)]

/-- A file in the documented format is loaded as its rules. -/
theorem load_printed (t : TagRules) {lines : List (Option SourceRule × Lib.CString)}
    (hn : rules.length ≤ maxRules) (hprint : ∀ l ∈ lines, PrintedLine l.1 l.2 ∧ ShortLine l.2)
    (horder : lines.filterMap Prod.fst = rules) :
    ∃ t', tagRulesLoad host t (fileOf (lines.map Prod.snd)) = some ((rules.length : Int), t') ∧
      t'.loaded = rules.map (SourceRule.stored host) := by
  have hlines : (fileOf (lines.map Prod.snd)).lines = lines.map fun l => l.2 ++ [CString.chr '\n'] := by
    rw [ConfigFile.lines, fileOf, pieces_printFile ?_, List.map_map]
    · rfl
    · rw [List.forall_mem_map]
      exact fun l hl => ⟨(hprint l hl).2.newline, (hprint l hl).2.length_le⟩
  obtain ⟨hall, hrules⟩ := rulesOf_printed host hprint
  rw [horder] at hrules
  have hlen : (rulesOf host (fileOf (lines.map Prod.snd)).lines).length = rules.length := by
    rw [hlines, hrules, List.length_map]
  have hcomplete : Complete host (fileOf (lines.map Prod.snd)) := by
    refine ⟨rfl, fun k hk => ?_, rfl, by rw [hlines]; exact hall, by omega⟩
    have hnone : (none : Option Nat) = some k := hk
    cases hnone
  rcases tagRulesLoad_cases host t (fileOf (lines.map Prod.snd)) with ⟨hno, -⟩ | ⟨-, code, t', hv, hload, -, h⟩
  · exact absurd hcomplete hno
  · rw [hlines, hrules] at hv hload
    rw [hv.of_valid (valid_stored host hdisj), if_pos rfl, hlen] at h
    exact ⟨t', h, hload⟩

end

/-- The program on a file in the documented format, when its nodes can be created. It starts if
the file has a rule. Then each call of `sendto` is for a captured frame of its own, with the
frame that the user asks for, and a frame that the user asks nothing for (no rule, the address
0.0.0.0, the VLAN ID 0) is never sent. Left alone it comes to rest, when it has made this call,
unless it was stopped or a socket gave up, for every captured frame that it did not drop at a
full queue and that the tag did not make too long. -/
theorem program_tags {creates : Nat → Bool} (hcreates : ∀ i, creates i = true) (host : ByteOrder)
    {rules : List SourceRule} {lines : List (Option SourceRule × CString)} (hn : rules.length ≤ maxRules)
    (hdisj : rules.Pairwise fun r r' => ∀ addr, ¬ (r.Covers addr ∧ r'.Covers addr))
    (hprint : ∀ l ∈ lines, PrintedLine l.1 l.2 ∧ ShortLine l.2)
    (horder : lines.filterMap Prod.fst = rules) :
    (rules = [] → mainStart creates host (fileOf (lines.map Prod.snd)) = some none) ∧
    (rules ≠ [] → ∃ ctx,
      mainStart creates host (fileOf (lines.map Prod.snd)) = some (some (vlanTaggerGraph ctx)) ∧
      ∀ tr s, (vlanTaggerRuntime host ctx).Run tr s →
        (ledger tr).handed.map Prod.snd = handedFrames tr ∧
        (∀ id, (ledger tr).sends id = [] ∨ ∃ p f, (capturedFrames tr)[id]? = some p ∧
          Asked rules p f ∧ (ledger tr).sends id = [f]) ∧
        (∀ id p, (capturedFrames tr)[id]? = some p → (∀ f, ¬ Asked rules p f) →
          (ledger tr).sends id = []) ∧
        (∃ tr' t, (vlanTaggerRuntime host ctx).Path s tr' t ∧ (∀ e ∈ tr', e.isInner = true) ∧
          AtRest host vlanTagger (Station.process ctx) t) ∧
        (Undisturbed tr → s.shouldExit = false) ∧
        (AtRest host vlanTagger (Station.process ctx) s → s.shouldExit = false →
          ∀ id p f, (capturedFrames tr)[id]? = some p → Asked rules p f → f.length < vlanEthFrameLen →
            (∃ k, id ∈ (ledger tr).tokens.held (.dropped k)) ∨ (ledger tr).sends id = [f])) := by
  obtain ⟨t', hload, hloaded⟩ := load_printed hdisj .zero hn hprint horder
  have hmain := mainStart_eq hcreates hload
  rw [hloaded] at hmain
  -- what was handed to `sendto` for a captured frame
  have hsent : ∀ {tr s}, (vlanTaggerRuntime host (contextOf host rules)).Run tr s →
      ∀ {id f fs}, (ledger tr).sends id = f :: fs → ∃ p, (capturedFrames tr)[id]? = some p ∧
        Asked rules p f ∧ (ledger tr).sends id = [f] := by
    intro tr s h id f fs hsends
    have hmem := Ledger.mem_of_sends (hsends ▸ List.mem_cons_self : f ∈ (ledger tr).sends id)
    obtain ⟨p, hname, htag, -⟩ := (agrees_run (vlanTagger_lane _) h).handed _ hmem
    exact ⟨p, names_iff.mp hname, (tagFrame_iff_asked hdisj p f).mp htag,
      (ledger_handedOnce tr).sends_of_mem hmem⟩
  refine ⟨fun hnil => ?_, fun hne => ⟨contextOf host rules, ?_, fun tr s h =>
    ⟨handed_run (vlanTagger_lane _) h, fun id => ?_, fun id p hp hno => ?_,
      exists_rest (weighted_of_rank vlanTagger_outputs vlanTagger_rank) h.reachable,
      Undisturbed.goes_on (errCounter_process _) h, fun hrest hgo id p f hp hasked hshort => ?_⟩⟩⟩
  · rw [hmain, hnil]
    rfl
  · have hpos := List.length_pos_iff.mpr hne
    rw [hmain, if_pos (by omega)]
    rfl
  · cases hsends : (ledger tr).sends id with
    | nil => exact .inl rfl
    | cons f fs =>
      obtain ⟨p, hcap, hasked, hone⟩ := hsent h hsends
      exact .inr ⟨p, f, hcap, hasked, hsends ▸ hone⟩
  · cases hsends : (ledger tr).sends id with
    | nil => rfl
    | cons f fs =>
      obtain ⟨p', hcap, hasked, -⟩ := hsent h hsends
      rw [hp] at hcap
      cases hcap
      exact absurd hasked (hno f)
  · have htag : tagFrame (contextOf host rules) p = some f := (tagFrame_iff_asked hdisj p f).mpr hasked
    rcases captured_at_rest (vlanTagger_lane _) (vlanTagger_ready _) (vlanTagger_consumed _) h hrest hgo hp
      with hdropped | hnone | ⟨f', htag', hends⟩
    · exact .inl hdropped
    · rw [htag] at hnone
      cases hnone
    · rw [htag] at htag'
      cases htag'
      exact .inr (hends.resolve_left (Nat.not_le.mpr hshort))

/-- A file of one rule. -/
def officeLines : List (Option SourceRule × CString) :=
  [(some officePool, [] ++ ((quad 0x0a000000 ++ CString.chr '-' :: (quad 0x0a0000ff ++
    CString.chr '-' :: CString.decimal 7)) ++ CString.ofString " # office-1"))]

theorem program_tags_office :
    ∃ ctx, mainStart (fun _ => true) .little (fileOf (officeLines.map Prod.snd)) =
        some (some (vlanTaggerGraph ctx)) ∧
      ∀ tr s, (vlanTaggerRuntime .little ctx).Run tr s →
        (ledger tr).handed.map Prod.snd = handedFrames tr := by
  have hprint : ∀ l ∈ officeLines, PrintedLine l.1 l.2 ∧ ShortLine l.2 := by
    simp only [officeLines, List.forall_mem_singleton]
    refine ⟨.rule (by simp) .range fun c hc => ?_, by decide +kernel⟩
    cases hc
    exact .inl (by decide)
  obtain ⟨-, hstarts⟩ := @program_tags (fun _ => true) (fun _ => rfl) .little
    [officePool] officeLines (by decide) (List.pairwise_singleton _ _) hprint rfl
  obtain ⟨ctx, hmain, hruns⟩ := hstarts (List.cons_ne_nil _ _)
  exact ⟨ctx, hmain, fun tr s h => (hruns tr s h).1⟩

end VlanTagger.Pipeline
