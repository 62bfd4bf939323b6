import VlanTagger.Lib.CString

/-!
# The rule file loader of config_parser/config_parser.c

One definition for each function. A file is the list of its bytes together with
the points at which the C library may report a failure. The line buffer `rule`
is the array of `MAX_LINE_LENGTH` characters, zeroed before each `fgets`, and a
pointer into it is the rest of the array from there on. An access past the end
of the array has no defined result: `lineEditor`, and with it the loader, returns
`none` there. The arguments are not `NULL` (the loader would return -1).
-/
namespace VlanTagger.ConfigParser

open Lib Lib.CString

/-- `MAX_RULES` -/
def maxRules : Nat := 128

/-- `MAX_LINE_LENGTH` -/
def maxLineLength : Nat := 100

/-- `MAX_RULE_CONTENT_LENGTH` -/
def maxRuleContentLength : Nat := 37

/-- `MIN_VLAN_ID` -/
def minVlanId : Int := 0

/-- `MAX_VLAN_ID` -/
def maxVlanId : Int := 4095

/-- `tag_rule_t`; the addresses are `s_addr` values, in network byte order. -/
structure TagRule where
  ipLeft : UInt32
  ipRight : UInt32
  tag : Int
  deriving DecidableEq

/-- `tag_rules_t` -/
structure TagRules where
  rules : Vector TagRule maxRules
  size : Nat

/-- The structure after `memset(tag_rules, 0, sizeof(tag_rules_t))`. -/
def TagRules.zero : TagRules := ⟨Vector.replicate maxRules ⟨0, 0, 0⟩, 0⟩

/-- The rules `0 .. size - 1`. -/
def TagRules.loaded (t : TagRules) : List TagRule := t.rules.toList.take t.size

/-- The configuration file as the loader meets it. -/
structure ConfigFile where
  /-- `fopen` succeeds. -/
  opens : Bool
  content : List UInt8
  /-- The call of `fgets`, counted from 0, that fails with a read error. -/
  readError : Option Nat
  /-- `fclose` succeeds. -/
  closes : Bool

/-- `ip_converting`: the stored `s_addr`, or `none` for -1. -/
def ipConverting (host : ByteOrder) (ipStr : CString) : Option UInt32 := inetAton host ipStr

def intMin : Int := -2147483648
def intMax : Int := 2147483647

/-- `tag_converting`: the stored tag, or `none` for -1. -/
def tagConverting (tagStr : CString) : Option Int :=
  let tagLong := strtol tagStr
  if tagLong.erange ∨ tagLong.value < intMin ∨ intMax < tagLong.value then none
  else if ¬ tagLong.converted ∨ tagLong.rest ≠ [] then none
  else some tagLong.value

def charCount (str : CString) (symbol : UInt8) : Nat := str.countP (fun c => c = symbol)

/-- A blank, a tab, `#` or a newline. -/
def isCut (c : UInt8) : Bool := c = chr ' ' ∨ c = chr '\t' ∨ c = chr '#' ∨ c = chr '\n'

def isBlank (c : UInt8) : Bool := c = chr ' ' ∨ c = chr '\t'

/-- The first loop of `line_editor`: skip blanks and tabs, if anything else follows. -/
def skipBlanks (string : List UInt8) : List UInt8 :=
  match (cstr string).findIdx? (fun c => !isBlank c) with
  | some i => string.drop i
  | none => string

/-- The second loop of `line_editor`, with `n` positions left from `j` on: the first
blank, tab, `#` or newline becomes the terminator. -/
def cutString : Nat → Nat → List UInt8 → Option (List UInt8)
  | 0, _, string => some string
  | n + 1, j, string =>
    match string[j]? with
    | none => none
    | some c => if isCut c then some (string.set j 0) else cutString n (j + 1) string

def lineEditor (string : List UInt8) : Option (List UInt8) :=
  let string := skipBlanks string
  if string.head? = some (chr '#') then some string
  else cutString maxRuleContentLength 0 string

/-- The two address ranges of check 2 meet. -/
def rangesMeet (host : ByteOrder) (i j : TagRule) : Bool :=
  !(host.ntohl i.ipRight < host.ntohl j.ipLeft || host.ntohl j.ipRight < host.ntohl i.ipLeft)

/-- The double loop of check 2. -/
def anyCollision (host : ByteOrder) : List TagRule → Bool
  | [] => false
  | r :: rs => rs.any (rangesMeet host r) || anyCollision host rs

def validateRules (host : ByteOrder) (t : TagRules) : Int :=
  if t.loaded.any (fun r => host.ntohl r.ipRight < host.ntohl r.ipLeft) then -11
  else if anyCollision host t.loaded then -12
  else if t.loaded.any (fun r => r.tag < minVlanId || maxVlanId < r.tag) then -13
  else 0

/-- How one pass of the line loop ends: with the next pass, or by `return code`. -/
inductive LineOutcome
  | next (t : TagRules) (loadedCount : Nat)
  | ret (code : Int) (t : TagRules)

def TagRules.set (t : TagRules) (i : Nat) (h : i < maxRules) (r : TagRule) : TagRules :=
  { t with rules := t.rules.set i r h }

/-- The end of the range of a rule: the start again when there is one dash, else the
next token. -/
def rangeEnd (host : ByteOrder) (dashCount : Nat) (left : UInt32) (saveptr : CString) :
    Except Int (UInt32 × CString) :=
  if dashCount = 1 then .ok (left, saveptr)
  else
    match strtok (chr '-') saveptr with
    | none => .error (-7)
    | some (rulePart, saveptr) =>
      match ipConverting host rulePart with
      | none => .error (-8)
      | some right => .ok (right, saveptr)

/-- The part of the line loop after the test of the rule limit: the tokens are
stored in `rules[loaded_count]` one by one. -/
def loadTokens (host : ByteOrder) (t : TagRules) (loadedCount : Nat) (h : loadedCount < maxRules)
    (s : CString) : LineOutcome :=
  let r := t.rules[loadedCount]
  match strtok (chr '-') s with
  | none => .ret (-7) t
  | some (rulePart, saveptr) =>
    match ipConverting host rulePart with
    | none => .ret (-8) t
    | some left =>
      let t := t.set loadedCount h { r with ipLeft := left }
      match rangeEnd host (charCount s (chr '-')) left saveptr with
      | .error code => .ret code t
      | .ok (right, saveptr) =>
        let t := t.set loadedCount h { r with ipLeft := left, ipRight := right }
        match strtok (chr '-') saveptr with
        | none => .ret (-7) t
        | some (rulePart, _) =>
          match tagConverting rulePart with
          | none => .ret (-9) t
          | some tag => .next (t.set loadedCount h ⟨left, right, tag⟩) (loadedCount + 1)

/-- `*real_start` is the terminator, `#` or a newline. -/
def Skipped (s : CString) : Prop :=
  s.head? = none ∨ s.head? = some (chr '#') ∨ s.head? = some (chr '\n')

instance (s : CString) : Decidable (Skipped s) := inferInstanceAs (Decidable (_ ∨ _))

/-- `dash_count < 1 || dash_count > 2` -/
def BadDashes (s : CString) : Prop := charCount s (chr '-') < 1 ∨ 2 < charCount s (chr '-')

instance (s : CString) : Decidable (BadDashes s) := inferInstanceAs (Decidable (_ ∨ _))

/-- One pass of the line loop on the string at `real_start`. -/
def loadText (host : ByteOrder) (t : TagRules) (loadedCount : Nat) (s : CString) : LineOutcome :=
  if Skipped s then .next t loadedCount
  else if BadDashes s then .ret (-5) t
  else if h : loadedCount < maxRules then loadTokens host t loadedCount h s
  else .ret (-6) t

/-- One pass of the line loop on the array that `fgets` filled. -/
def loadLine (host : ByteOrder) (t : TagRules) (loadedCount : Nat) (rule : List UInt8) :
    Option LineOutcome :=
  (lineEditor rule).map fun realStart => loadText host t loadedCount (cstr realStart)

/-- The array `rule` after `fgets` stored a piece of the file in it. -/
def lineBuffer (piece : List UInt8) : List UInt8 :=
  piece ++ List.replicate (maxLineLength - piece.length) 0

/-- The line loop over what the calls of `fgets` store. -/
def loadLoop (host : ByteOrder) (t : TagRules) (loadedCount : Nat) :
    List (List UInt8) → Option LineOutcome
  | [] => some (.next t loadedCount)
  | piece :: rest =>
    match loadLine host t loadedCount (lineBuffer piece) with
    | none => none
    | some (.ret code t) => some (.ret code t)
    | some (.next t loadedCount) => loadLoop host t loadedCount rest

/-- `tag_rules_load`: the return value and the structure it leaves. -/
def tagRulesLoad (host : ByteOrder) (t : TagRules) (file : ConfigFile) :
    Option (Int × TagRules) :=
  if !file.opens then some (-2, t)
  else
    let lines := pieces maxLineLength [] file.content
    let failed := file.readError.any (fun k => k ≤ lines.length)
    let read := (file.readError.map lines.take).getD lines
    match loadLoop host .zero 0 read with
    | none => none
    | some (.ret code t) => some (code, t)
    | some (.next t loadedCount) =>
      if failed then some (-3, t)
      else if !file.closes then some (-10, t)
      else
        let t := { t with size := loadedCount }
        if 0 < loadedCount ∧ validateRules host t ≠ 0 then some (validateRules host t, t)
        else some (loadedCount, t)

end VlanTagger.ConfigParser
