import VlanTagger.ConfigParser.Validation

/-!
# What a failed load leaves behind

The structure is cleared once the file is open, and its size is set behind the last line
of the file: an exit before that leaves a structure without rules. `validate_rules` runs
with the size already set, so the rules that it rejects stay in the structure.
-/
namespace VlanTagger.ConfigParser

open Lib Lib.CString

/-- `tag_rules_load` with a `config_path` that may be `NULL`. -/
def tagRulesLoadPath (host : ByteOrder) (t : TagRules) : Option ConfigFile → Option (Int × TagRules)
  | none => some (-1, t)
  | some file => tagRulesLoad host t file

/-- No rule set that has not been validated: the structure is as it was, or it has no rules. -/
structure Safe (host : ByteOrder) (t t' : TagRules) : Prop where
  size_le : t'.size ≤ maxRules
  valid : Valid host t'.loaded
  unchanged_or_empty : t' = t ∨ t'.size = 0

/-- The file is read to its end, and `validate_rules` rejects what stands in it. -/
def Rejected (host : ByteOrder) : Option ConfigFile → Prop
  | none => False
  | some file => Complete host file ∧ ¬ Valid host (rulesOf host file.lines)

variable {host : ByteOrder} {t t' : TagRules}

theorem safe_of_unchanged_or_empty (hsize : t.size ≤ maxRules) (hvalid : Valid host t.loaded)
    (h : t' = t ∨ t'.size = 0) : Safe host t t' := by
  rcases h with rfl | hzero
  · exact ⟨hsize, hvalid, .inl rfl⟩
  · refine ⟨by omega, ?_, .inr hzero⟩
    rw [TagRules.loaded, hzero]
    exact valid_nil host

/-- A call that fails leaves a valid rule set unless it is `validate_rules` that fails. -/
theorem failed_load_safe_iff (hsize : t.size ≤ maxRules) (hvalid : Valid host t.loaded)
    (config : Option ConfigFile) :
    (∀ code t', tagRulesLoadPath host t config = some (code, t') → code < 0 → Safe host t t') ↔
      ¬ Rejected host config := by
  cases config with
  | none =>
    refine iff_of_true ?_ id
    rintro code t' ⟨⟩ -
    exact ⟨hsize, hvalid, .inl rfl⟩
  | some file =>
    rcases tagRulesLoad_cases host t file with ⟨hc, hall⟩ | ⟨hc, code, t₁, hv, hload, -, heq⟩
    · refine iff_of_true (fun code t' h _ => ?_) fun hr => hc hr.1
      exact safe_of_unchanged_or_empty hsize hvalid (hall code t' h).2
    · rcases hv.neg_or_valid with hneg | ⟨hzero, hval⟩
      · -- the verdict is the return value, and the rules are in the structure
        have hbad : ¬ Valid host (rulesOf host file.lines) := fun hval => by
          have h0 := hv.of_valid hval
          omega
        refine iff_of_false (fun h => ?_) (not_not.mpr ⟨hc, hbad⟩)
        rw [if_neg (by omega)] at heq
        have hsafe := (h code t₁ heq hneg).valid
        rw [hload] at hsafe
        exact hbad hsafe
      · refine iff_of_true (fun n t' h hn => ?_) fun hr => hr.2 hval
        rw [if_pos hzero] at heq
        rw [tagRulesLoadPath, heq] at h
        cases h
        omega

/-- A file with a range that ends before it starts. -/
def reversedRange : ConfigFile := ⟨true, ofString "10.0.0.9-10.0.0.1-5\n", none, true⟩

/-- Its rule stays in the structure that was empty before. -/
theorem failed_load_unsafe :
    Valid .little TagRules.zero.loaded ∧
      ∃ t', tagRulesLoadPath .little .zero (some reversedRange) = some (-11, t') ∧
        t'.loaded = [⟨0x0900000a, 0x0100000a, 5⟩] ∧ ¬ Valid .little t'.loaded ∧ t'.size = 1 := by
  have hresult : (tagRulesLoadPath .little .zero (some reversedRange)).map
      (fun r => (r.1, r.2.loaded, r.2.size)) =
        some (-11, [⟨0x0900000a, 0x0100000a, 5⟩], 1) := by decide +kernel
  obtain ⟨⟨code, t'⟩, h, heq⟩ := Option.map_eq_some_iff.mp hresult
  obtain ⟨rfl, hload, hsize⟩ : code = -11 ∧ t'.loaded = _ ∧ t'.size = 1 := by simpa using heq
  refine ⟨valid_nil _, t', h, hload, fun hval => ?_, hsize⟩
  rw [hload] at hval
  exact absurd (hval.ordered _ List.mem_cons_self) (by unfold TagRule.Ordered; decide)

def wholeFile : ConfigFile := ⟨true, ofString "10.1.0.1-3\n10.1.0.2-4\n", none, true⟩

/-- Reading fails behind the first of two rules. -/
def halfFile : ConfigFile := ⟨true, ofString "10.0.0.1-7\n10.0.0.2-8\n", some 1, true⟩

/-- A structure with two rules loses them when the next file cannot be read to its end. -/
theorem failed_load_safe_half :
    ∃ t t', tagRulesLoadPath .little .zero (some wholeFile) = some (2, t) ∧ t.size = 2 ∧
      tagRulesLoadPath .little t (some halfFile) = some (-3, t') ∧ t'.size = 0 ∧ Safe .little t t' := by
  have hresult : (tagRulesLoadPath .little .zero (some wholeFile)).bind (fun r =>
      (tagRulesLoadPath .little r.2 (some halfFile)).map fun r' => (r.1, r'.1, r'.2.size)) =
        some (2, -3, 0) := by decide +kernel
  obtain ⟨⟨n, t⟩, hwhole, hresult⟩ := Option.bind_eq_some_iff.mp hresult
  obtain ⟨⟨code, t'⟩, hhalf, heq⟩ := Option.map_eq_some_iff.mp hresult
  obtain ⟨rfl, rfl, hsize⟩ : n = 2 ∧ code = -3 ∧ t'.size = 0 := by simpa using heq
  obtain ⟨htwo, hmax, -, -, hvalid⟩ := tagRulesLoad_accepts hwhole (by decide)
  refine ⟨t, t', hwhole, by omega, hhalf, hsize,
    (failed_load_safe_iff hmax hvalid (some halfFile)).mpr ?_ _ t' hhalf (by decide)⟩
  rintro ⟨hc, -⟩
  exact absurd (hc.read 1 rfl) (by decide +kernel)

end VlanTagger.ConfigParser
