import VlanTagger.ConfigParser.Loop

/-!
# What the loader accepts and what it rejects at validation

`Valid` is the purpose of `validate_rules` in terms of addresses: every range is
nonempty, no address belongs to two rules, every tag is a VLAN ID. The endpoint
comparisons of the code decide it, and a file whose lines all parse is rejected
with the code of the first condition that fails.
-/
namespace VlanTagger.ConfigParser

open Lib Lib.CString

/-- The address, in host order, lies in the inclusive range of the rule. -/
def TagRule.Covers (host : ByteOrder) (r : TagRule) (addr : UInt32) : Prop :=
  host.ntohl r.ipLeft ≤ addr ∧ addr ≤ host.ntohl r.ipRight

instance (host : ByteOrder) (r : TagRule) (addr : UInt32) : Decidable (r.Covers host addr) :=
  inferInstanceAs (Decidable (_ ∧ _))

def TagRule.Ordered (host : ByteOrder) (r : TagRule) : Prop :=
  host.ntohl r.ipLeft ≤ host.ntohl r.ipRight

def TagRule.VlanId (r : TagRule) : Prop := 0 ≤ r.tag ∧ r.tag ≤ 4095

/-- Some address lies in the ranges of two different rules of the list. -/
def SharedAddress (host : ByteOrder) (rs : List TagRule) : Prop :=
  ∃ i j : Fin rs.length, i ≠ j ∧ ∃ addr, rs[i].Covers host addr ∧ rs[j].Covers host addr

/-- What `validate_rules` is there to establish. -/
structure Valid (host : ByteOrder) (rs : List TagRule) : Prop where
  ordered : ∀ r ∈ rs, r.Ordered host
  disjoint : ¬ SharedAddress host rs
  vlanId : ∀ r ∈ rs, r.VlanId

/-- Two nonempty ranges meet when neither ends before the other starts. -/
theorem rangesMeet_iff {host : ByteOrder} {r r' : TagRule} (h : r.Ordered host)
    (h' : r'.Ordered host) :
    rangesMeet host r r' = true ↔ ∃ addr, r.Covers host addr ∧ r'.Covers host addr := by
  simp only [rangesMeet, Bool.not_eq_true', Bool.or_eq_false_iff, decide_eq_false_iff_not,
    TagRule.Covers, TagRule.Ordered, UInt32.lt_iff_toNat_lt, UInt32.le_iff_toNat_le] at *
  constructor
  · rintro ⟨hl, hr⟩
    -- the larger of the two starts is common
    by_cases hle : (host.ntohl r.ipLeft).toNat ≤ (host.ntohl r'.ipLeft).toNat
    · exact ⟨host.ntohl r'.ipLeft, by omega, by omega⟩
    · exact ⟨host.ntohl r.ipLeft, by omega, by omega⟩
  · rintro ⟨addr, ha, ha'⟩
    omega

theorem anyCollision_eq_false_iff (host : ByteOrder) (rs : List TagRule) :
    anyCollision host rs = false ↔ rs.Pairwise (fun r r' => rangesMeet host r r' = false) := by
  induction rs with
  | nil => simp [anyCollision]
  | cons r rs ih =>
    rw [anyCollision, Bool.or_eq_false_iff, List.any_eq_false, List.pairwise_cons, ih]
    simp only [Bool.not_eq_true]

/-- The double loop of check 2 finds a collision exactly when two rules share an address. -/
theorem anyCollision_iff {host : ByteOrder} {rs : List TagRule} (h : ∀ r ∈ rs, r.Ordered host) :
    anyCollision host rs = true ↔ SharedAddress host rs := by
  rw [← not_iff_not, Bool.not_eq_true, anyCollision_eq_false_iff, List.pairwise_iff_getElem]
  constructor
  · rintro hp ⟨i, j, hne, addr, hi, hj⟩
    have ho := h rs[i] (List.getElem_mem i.isLt)
    have ho' := h rs[j] (List.getElem_mem j.isLt)
    rcases Nat.lt_or_gt_of_ne (Fin.val_ne_of_ne hne) with hlt | hlt
    · have hm := (rangesMeet_iff ho ho').mpr ⟨addr, hi, hj⟩
      rw [Fin.getElem_fin, Fin.getElem_fin, hp i j i.isLt j.isLt hlt] at hm
      cases hm
    · have hm := (rangesMeet_iff ho' ho).mpr ⟨addr, hj, hi⟩
      rw [Fin.getElem_fin, Fin.getElem_fin, hp j i j.isLt i.isLt hlt] at hm
      cases hm
  · intro hn i j hi hj hij
    by_contra hm
    obtain ⟨addr, hc, hc'⟩ := (rangesMeet_iff (h _ (List.getElem_mem hi))
      (h _ (List.getElem_mem hj))).mp (by simpa using hm)
    exact hn ⟨⟨i, hi⟩, ⟨j, hj⟩, by simpa using Nat.ne_of_lt hij, addr, hc, hc'⟩

theorem any_unordered_iff (host : ByteOrder) (rs : List TagRule) :
    rs.any (fun r => decide (host.ntohl r.ipRight < host.ntohl r.ipLeft)) = true ↔
      ∃ r ∈ rs, ¬ r.Ordered host := by
  simp [TagRule.Ordered]

theorem any_badTag_iff (rs : List TagRule) :
    rs.any (fun r => decide (r.tag < minVlanId) || decide (maxVlanId < r.tag)) = true ↔
      ∃ r ∈ rs, ¬ r.VlanId := by
  rw [List.any_eq_true]
  refine exists_congr fun r => and_congr_right fun _ => ?_
  rw [Bool.or_eq_true, decide_eq_true_iff, decide_eq_true_iff]
  unfold TagRule.VlanId minVlanId maxVlanId
  omega

/-- The three checks, in the order in which they decide the return code. -/
inductive Verdict (host : ByteOrder) (rs : List TagRule) : Int → Prop
  | unordered (h : ∃ r ∈ rs, ¬ r.Ordered host) : Verdict host rs (-11)
  | collision (ho : ∀ r ∈ rs, r.Ordered host) (h : SharedAddress host rs) : Verdict host rs (-12)
  | badTag (ho : ∀ r ∈ rs, r.Ordered host) (hd : ¬ SharedAddress host rs)
      (h : ∃ r ∈ rs, ¬ r.VlanId) : Verdict host rs (-13)
  | valid (h : Valid host rs) : Verdict host rs 0

theorem validateRules_verdict (host : ByteOrder) (t : TagRules) :
    Verdict host t.loaded (validateRules host t) := by
  unfold validateRules
  split_ifs with h1 h2 h3
  · exact .unordered ((any_unordered_iff host _).mp h1)
  all_goals
    have ho : ∀ r ∈ t.loaded, r.Ordered host := by
      intro r hr
      by_contra hn
      exact h1 ((any_unordered_iff host _).mpr ⟨r, hr, hn⟩)
  · exact .collision ho ((anyCollision_iff ho).mp h2)
  · exact .badTag ho (fun hs => h2 ((anyCollision_iff ho).mpr hs)) ((any_badTag_iff _).mp h3)
  · refine .valid ⟨ho, fun hs => h2 ((anyCollision_iff ho).mpr hs), fun r hr => ?_⟩
    by_contra hn
    exact h3 ((any_badTag_iff _).mpr ⟨r, hr, hn⟩)

/-- A verdict other than `Valid` is an error code. -/
theorem Verdict.neg_or_valid {host : ByteOrder} {rs : List TagRule} {code : Int}
    (h : Verdict host rs code) : code < 0 ∨ code = 0 ∧ Valid host rs := by
  cases h with
  | unordered _ => exact .inl (by decide)
  | collision _ _ => exact .inl (by decide)
  | badTag _ _ _ => exact .inl (by decide)
  | valid h => exact .inr ⟨rfl, h⟩

theorem Verdict.of_valid {host : ByteOrder} {rs : List TagRule} {code : Int}
    (h : Verdict host rs code) (hv : Valid host rs) : code = 0 := by
  cases h with
  | unordered hbad =>
    obtain ⟨r, hr, hn⟩ := hbad
    exact absurd (hv.ordered r hr) hn
  | collision _ hs => exact absurd hs hv.disjoint
  | badTag _ _ hbad =>
    obtain ⟨r, hr, hn⟩ := hbad
    exact absurd (hv.vlanId r hr) hn
  | valid _ => rfl

theorem valid_nil (host : ByteOrder) : Valid host [] :=
  ⟨by simp, fun ⟨i, _⟩ => i.elim0, by simp⟩

/-! ## The whole loader -/

/-- What the calls of `fgets` store when none of them fails. -/
def ConfigFile.lines (file : ConfigFile) : List (List UInt8) := pieces maxLineLength [] file.content

/-- The load comes to `validate_rules`: no call fails, every line parses, and there are not
too many rules. -/
structure Complete (host : ByteOrder) (file : ConfigFile) : Prop where
  opens : file.opens = true
  read : ∀ k, file.readError = some k → file.lines.length < k
  closes : file.closes = true
  parses : ∀ piece ∈ file.lines, Parses host piece
  length_le : (rulesOf host file.lines).length ≤ maxRules

theorem loadLoop_next_iff {host : ByteOrder} {lines : List (List UInt8)} (t : TagRules) :
    (∃ t' n', loadLoop host t 0 lines = some (.next t' n')) ↔
      (∀ piece ∈ lines, Parses host piece) ∧ (rulesOf host lines).length ≤ maxRules := by
  constructor
  · rintro ⟨t', n', h⟩
    obtain ⟨hall, hlen, hle, -⟩ := loadLoop_next (Nat.zero_le _) h
    exact ⟨hall, by omega⟩
  · rintro ⟨hall, hle⟩
    rcases loadLoop_parses t (Nat.zero_le _) hall with ⟨-, h⟩ | ⟨hgt, -⟩
    · exact h
    · omega

/-- The exits of the loader: in front of `validate_rules` the structure is as it was or has no
rules in it, behind it the structure holds the rules of the file, whatever the verdict. -/
theorem tagRulesLoad_cases (host : ByteOrder) (t : TagRules) (file : ConfigFile) :
    (¬ Complete host file ∧ ∀ code t', tagRulesLoad host t file = some (code, t') →
      code < 0 ∧ (t' = t ∨ t'.size = 0)) ∨
    (Complete host file ∧ ∃ code t', Verdict host (rulesOf host file.lines) code ∧
      t'.loaded = rulesOf host file.lines ∧ t'.size = (rulesOf host file.lines).length ∧
      tagRulesLoad host t file =
        some (if code = 0 then ((rulesOf host file.lines).length : Int) else code, t')) := by
  have hlines : pieces maxLineLength [] file.content = file.lines := rfl
  unfold tagRulesLoad
  cases hopen : file.opens with
  | false =>
    refine .inl ⟨fun h => absurd (h.opens.symm.trans hopen) (by decide), ?_⟩
    rintro code t' ⟨⟩
    exact ⟨by decide, .inl rfl⟩
  | true =>
    simp only [hlines, Bool.not_true, Bool.false_eq_true, if_false]
    generalize hread : (file.readError.map file.lines.take).getD file.lines = read
    -- if no call of `fgets` fails, the loop reads the whole file
    have hfail : (file.readError.any fun k => decide (k ≤ file.lines.length)) = false ↔
        ∀ k, file.readError = some k → file.lines.length < k := by
      cases file.readError <;> simp
    have hwhole : (∀ k, file.readError = some k → file.lines.length < k) → read = file.lines := by
      intro hlt
      rw [← hread]
      cases hre : file.readError with
      | none => rfl
      | some k => exact List.take_of_length_le (hlt k hre).le
    have hnext : Complete host file → ∃ t' n', loadLoop host .zero 0 read = some (.next t' n') := by
      intro h
      rw [hwhole h.read]
      exact (loadLoop_next_iff _).mpr ⟨h.parses, h.length_le⟩
    have hsize : ∀ {out}, loadLoop host .zero 0 read = some out → out.rules.size = 0 := size_loadLoop
    cases hloop : loadLoop host .zero 0 read with
    | none =>
      refine .inl ⟨fun h => ?_, nofun⟩
      obtain ⟨t', n', hn⟩ := hnext h
      rw [hloop] at hn
      cases hn
    | some out =>
      cases out with
      | ret code t₁ =>
        refine .inl ⟨fun h => ?_, ?_⟩
        · obtain ⟨t', n', hn⟩ := hnext h
          rw [hloop] at hn
          cases hn
        · rintro code' t' ⟨⟩
          exact ⟨loadLoop_ret_neg hloop, .inr (hsize hloop)⟩
      | next t₁ count =>
        simp only
        by_cases hread : ∀ k, file.readError = some k → file.lines.length < k
        · rw [if_neg (by rw [hfail.mpr hread]; decide)]
          cases hclose : file.closes with
          | false =>
            refine .inl ⟨fun h => absurd (h.closes.symm.trans hclose) (by decide), ?_⟩
            rintro code t' ⟨⟩
            exact ⟨by decide, .inr (hsize hloop)⟩
          | true =>
            rw [hwhole hread] at hloop
            obtain ⟨hall, hlen, hle, hrules⟩ := loadLoop_next (Nat.zero_le _) hloop
            rw [Nat.zero_add] at hlen
            have hload : TagRules.loaded { t₁ with size := count } = rulesOf host file.lines := hrules
            have hv := validateRules_verdict host { t₁ with size := count }
            rw [hload] at hv
            refine .inr ⟨⟨hopen, hread, hclose, hall, by omega⟩, _, { t₁ with size := count }, hv, hload,
              hlen, ?_⟩
            by_cases hzero : validateRules host { t₁ with size := count } = 0
            · simp only [hzero, ne_eq, not_true_eq_false, and_false, if_false, if_true, Bool.not_true,
                Bool.false_eq_true]
              rw [hlen]
            · have hpos : 0 < count := by
                by_contra hc
                obtain rfl : count = 0 := by omega
                exact hzero rfl
              simp only [hzero, hpos, ne_eq, not_false_eq_true, and_self, if_true, if_false, Bool.not_true,
                Bool.false_eq_true]
        · rw [if_pos (by rw [← hfail, Bool.not_eq_false] at hread; exact hread)]
          refine .inl ⟨fun h => hread h.read, ?_⟩
          rintro code t' ⟨⟩
          exact ⟨by decide, .inr (hsize hloop)⟩

/-- A nonnegative result is the number of rules, and the rules are those of the file. -/
theorem tagRulesLoad_accepts {host : ByteOrder} {t t' : TagRules} {file : ConfigFile} {n : Int}
    (h : tagRulesLoad host t file = some (n, t')) (hn : 0 ≤ n) :
    (t'.size : Int) = n ∧ t'.size ≤ maxRules ∧ t'.loaded = rulesOf host file.lines ∧
      (∀ piece ∈ file.lines, Parses host piece) ∧ Valid host t'.loaded := by
  rcases tagRulesLoad_cases host t file with ⟨-, hall⟩ | ⟨hc, code, t₁, hv, hload, hsize, heq⟩
  · obtain ⟨hneg, -⟩ := hall n t' h
    omega
  · rw [heq] at h
    obtain ⟨hn', rfl⟩ := Prod.mk.inj (Option.some.inj h)
    rcases hv.neg_or_valid with hneg | ⟨hzero, hval⟩
    · rw [if_neg (by omega)] at hn'
      omega
    · rw [if_pos hzero] at hn'
      rw [hload]
      exact ⟨by rw [hsize, hn'], by rw [hsize]; exact hc.length_le, rfl, hc.parses, hval⟩

/-- A file whose pieces all parse is loaded up to the limit and then judged. -/
theorem tagRulesLoad_parses {host : ByteOrder} (t : TagRules) (file : ConfigFile)
    (hopen : file.opens = true) (hread : file.readError = none) (hclose : file.closes = true)
    (hall : ∀ piece ∈ file.lines, Parses host piece) :
    (maxRules < (rulesOf host file.lines).length ∧
      ∃ t', tagRulesLoad host t file = some (-6, t')) ∨
    ((rulesOf host file.lines).length ≤ maxRules ∧
      ∃ code t', Verdict host (rulesOf host file.lines) code ∧
        t'.loaded = rulesOf host file.lines ∧ t'.size = (rulesOf host file.lines).length ∧
        tagRulesLoad host t file =
          some (if code = 0 then ((rulesOf host file.lines).length : Int) else code, t')) := by
  have hlines : pieces maxLineLength [] file.content = file.lines := rfl
  by_cases hle : (rulesOf host file.lines).length ≤ maxRules
  · have hc : Complete host file := ⟨hopen, by rw [hread]; exact nofun, hclose, hall, hle⟩
    rcases tagRulesLoad_cases host t file with ⟨hn, -⟩ | ⟨-, h⟩
    · exact absurd hc hn
    · exact .inr ⟨hle, h⟩
  · rcases loadLoop_parses TagRules.zero (Nat.zero_le _) hall with ⟨hle', -⟩ | ⟨hgt, t₁, hloop⟩
    · omega
    · refine .inl ⟨by omega, t₁, ?_⟩
      simp only [tagRulesLoad, hopen, hread, hlines, Bool.not_true, Bool.false_eq_true, if_false,
        Option.map_none, Option.getD_none, hloop]

/-- The loader accepts only valid rule sets, and it rejects a file whose lines all
parse with the code of the first condition that fails: too many rules, a range that
ends before it starts, an address in two ranges, a tag that is no VLAN ID. -/
theorem tag_rules_load_validates (host : ByteOrder) (t : TagRules) (file : ConfigFile) :
    (∀ n t', tagRulesLoad host t file = some (n, t') → 0 ≤ n →
      (t'.size : Int) = n ∧ t'.size ≤ maxRules ∧ (∀ r ∈ t'.loaded, r.Ordered host) ∧
        ¬ SharedAddress host t'.loaded ∧ ∀ r ∈ t'.loaded, r.VlanId) ∧
    (file.opens = true → file.readError = none → file.closes = true →
      (∀ piece ∈ file.lines, Parses host piece) →
      ∃ code t', tagRulesLoad host t file = some (code, t') ∧
        let rs := rulesOf host file.lines
        (maxRules < rs.length → code = -6) ∧
        (rs.length ≤ maxRules →
          (code = -11 ↔ ∃ r ∈ rs, ¬ r.Ordered host) ∧
          ((∀ r ∈ rs, r.Ordered host) →
            (code = -12 ↔ SharedAddress host rs) ∧
            (¬ SharedAddress host rs →
              (code = -13 ↔ ∃ r ∈ rs, ¬ r.VlanId) ∧
              ((∀ r ∈ rs, r.VlanId) → code = rs.length))))) := by
  refine ⟨fun n t' h hn => ?_, fun hopen hread hclose hall => ?_⟩
  · obtain ⟨hsize, hle, -, -, hval⟩ := tagRulesLoad_accepts h hn
    exact ⟨hsize, hle, hval.ordered, hval.disjoint, hval.vlanId⟩
  · rcases tagRulesLoad_parses t file hopen hread hclose hall with
      ⟨hgt, t', h⟩ | ⟨hle, code, t', hv, -, -, h⟩
    · exact ⟨-6, t', h, fun _ => rfl, fun hle => absurd hgt (by omega)⟩
    · refine ⟨_, t', h, fun hgt => absurd hgt (by omega), fun _ => ?_⟩
      have hunordered (ho : ∀ r ∈ rulesOf host file.lines, r.Ordered host) :
          ¬ ∃ r ∈ rulesOf host file.lines, ¬ r.Ordered host := fun ⟨r, hr, hn⟩ => hn (ho r hr)
      cases hv with
      | unordered hbad =>
        exact ⟨iff_of_true rfl hbad, fun ho => absurd hbad (hunordered ho)⟩
      | collision ho hs =>
        exact ⟨iff_of_false (by simp) (hunordered ho), fun _ =>
          ⟨iff_of_true rfl hs, fun hd => absurd hs hd⟩⟩
      | badTag ho hd hbad =>
        refine ⟨iff_of_false (by simp) (hunordered ho), fun _ =>
          ⟨iff_of_false (by simp) hd, fun _ => ⟨iff_of_true rfl hbad, fun hv => ?_⟩⟩⟩
        obtain ⟨r, hr, hn⟩ := hbad
        exact absurd (hv r hr) hn
      | valid hval =>
        rw [if_pos rfl]
        refine ⟨iff_of_false (by omega) (hunordered hval.ordered), fun _ =>
          ⟨iff_of_false (by omega) hval.disjoint, fun _ => ⟨iff_of_false (by omega) ?_, fun _ => rfl⟩⟩⟩
        exact fun ⟨r, hr, hn⟩ => hn (hval.vlanId r hr)

/-- A file with a comment, a range and a single address. -/
def twoRules : ConfigFile :=
  ⟨true, ofString "# pools\n10.0.0.1-10.0.0.9-5\n  10.0.1.1-7 # x\n", none, true⟩

theorem tag_rules_load_validates_two :
    ∃ t', tagRulesLoad .little .zero twoRules = some (2, t') ∧ t'.size = 2 ∧
      ¬ SharedAddress .little t'.loaded := by
  have hcode : (tagRulesLoad .little .zero twoRules).map Prod.fst = some 2 := by decide +kernel
  obtain ⟨⟨n, t'⟩, h, rfl⟩ := Option.map_eq_some_iff.mp hcode
  obtain ⟨hsize, -, -, hdisj, -⟩ :=
    (tag_rules_load_validates .little .zero twoRules).1 _ t' h (by decide)
  exact ⟨t', h, by exact_mod_cast hsize, hdisj⟩

end VlanTagger.ConfigParser
