import Mathlib.Data.List.GetD
import VlanTagger.ConfigParser.Validation
import VlanTagger.Lib.Transition
import VlanTagger.Nodes.Tagger

/-!
# What the tagger makes of a frame

`tagFrame` is the purpose of the tagger, stated on the bytes of one frame: an IPv4
frame whose destination has a tag gets the four bytes of the 802.1Q header behind
its two addresses. The loop body computes it whatever is left in its two buffers, so
a run of the tagger applies it packet by packet. With a rule set that the loader
accepted, the tag is the one of the only rule that covers the destination.
-/
namespace VlanTagger.Nodes

open Lib Lib.CString ConfigParser Queue

/-! ## Frames -/

def etherType (p : List UInt8) : Nat := (p.getD 12 0).toNat * 256 + (p.getD 13 0).toNat

/-- The big-endian IPv4 destination of an untagged frame. -/
def destination (p : List UInt8) : UInt32 :=
  UInt32.ofNat ((p.getD 30 0).toNat * 16777216 + (p.getD 31 0).toNat * 65536 +
    (p.getD 32 0).toNat * 256 + (p.getD 33 0).toNat)

/-- The tag protocol identifier, then PCP = DEI = 0 and the VLAN ID, in network order. -/
def vlanTag (vid : Nat) : List UInt8 := [0x81, 0x00, UInt8.ofNat (vid / 256), UInt8.ofNat (vid % 256)]

def insertTag (p : List UInt8) (vid : Nat) : List UInt8 := p.take 12 ++ (vlanTag vid ++ p.drop 12)

/-- The VLAN ID that `tagger_node_edit_packet` writes for a tag. -/
def vlanIdOf (tag : Int) : Nat := (UInt16.ofInt tag &&& vlanVidMask).toNat

/-- The frame the tagger passes on for the frame `p`, if any. -/
def tagFrame (ctx : TaggerContext) (p : List UInt8) : Option (List UInt8) :=
  if p.length < ethHlen + ipHeaderMinLen ∨ etherType p ≠ 0x0800 ∨ destination p = 0 then none
  else if taggerNodeGetTag (destination p) ctx.tagRules = 0 then none
  else some (insertTag p (vlanIdOf (taggerNodeGetTag (destination p) ctx.tagRules)))

theorem length_insertTag {p : List UInt8} (h : 12 ≤ p.length) (vid : Nat) :
    (insertTag p vid).length = p.length + 4 := by
  simp only [insertTag, vlanTag, List.length_append, List.length_take, List.length_drop,
    List.length_cons, List.length_nil]
  omega

/-- What the tagger looks at is in the first 34 bytes. -/
theorem etherType_append {p : List UInt8} (h : 14 ≤ p.length) (rest : List UInt8) :
    etherType (p ++ rest) = etherType p := by
  unfold etherType
  rw [List.getD_append _ _ _ _ (by omega), List.getD_append _ _ _ _ (by omega)]

theorem destination_append {p : List UInt8} (h : 34 ≤ p.length) (rest : List UInt8) :
    destination (p ++ rest) = destination p := by
  unfold destination
  rw [List.getD_append _ _ _ _ (by omega), List.getD_append _ _ _ _ (by omega),
    List.getD_append _ _ _ _ (by omega), List.getD_append _ _ _ _ (by omega)]

/-- Only IPv4 frames with a whole header are tagged. -/
theorem tagFrame_eq_insertTag {ctx : TaggerContext} {p f : List UInt8} (h : tagFrame ctx p = some f) :
    34 ≤ p.length ∧ etherType p = 0x0800 ∧ ∃ vid, f = insertTag p vid := by
  unfold tagFrame at h
  split at h
  · cases h
  next hfilter =>
  simp only [not_or, not_not] at hfilter
  obtain ⟨hlen, hip, -⟩ := hfilter
  split at h
  · cases h
  · cases h
    exact ⟨Nat.not_lt.mp hlen, hip, _, rfl⟩

/-- Tagged frames grow by the tag. -/
theorem length_tagFrame {ctx : TaggerContext} {p f : List UInt8} (h : tagFrame ctx p = some f) :
    34 ≤ p.length ∧ f.length = p.length + 4 := by
  obtain ⟨hlen, -, vid, rfl⟩ := tagFrame_eq_insertTag h
  exact ⟨hlen, length_insertTag (by omega) _⟩

/-- Behind the tag stands what stood behind the addresses. -/
theorem drop_insertTag {p : List UInt8} (h : 12 ≤ p.length) (vid : Nat) :
    (insertTag p vid).drop 16 = p.drop 12 := by
  rw [insertTag, ← List.append_assoc]
  apply List.drop_left'
  rw [List.length_append, List.length_take, Nat.min_eq_left h]
  rfl

/-- Deleting bytes 12..15 of a tagged frame gives the frame back. -/
theorem untag_insertTag {p : List UInt8} (h : 12 ≤ p.length) (vid : Nat) :
    (insertTag p vid).take 12 ++ (insertTag p vid).drop 16 = p := by
  have hl : (p.take 12).length = 12 := by rw [List.length_take, Nat.min_eq_left h]
  have ht : (insertTag p vid).take 12 = p.take 12 := List.take_left' hl
  rw [ht, drop_insertTag h, List.take_append_drop]

theorem vlanIdOf_of_vlanId {tag : Int} (h : 0 ≤ tag) (h' : tag ≤ 4095) : (vlanIdOf tag : Int) = tag := by
  obtain ⟨n, rfl⟩ := Int.eq_ofNat_of_zero_le h
  have hn : n < 65536 := by omega
  have hmask : (vlanVidMask).toNat = 2 ^ 12 - 1 := rfl
  have hof : (UInt16.ofInt (n : Int)).toNat = n := toNat_ofInt hn
  rw [vlanIdOf, UInt16.toNat_and, hof, hmask, Nat.and_two_pow_sub_one_eq_mod]
  omega

/-! ## The loop body -/

section

variable {host : ByteOrder} {buffer : Memory UInt8} {p : List UInt8}

theorem getD_of_bytes (h : buffer.bytes p.length = p) {i : Nat} (hi : i < p.length) :
    p.getD i 0 = buffer i := by
  rw [Memory.apply_of_bytes h hi]
  simp [hi]

theorem loaded_etherType (host : ByteOrder) (h : buffer.bytes p.length = p) (hlen : 34 ≤ p.length) :
    (host.ntohs (host.load16 (buffer.advance 12))).toNat = etherType p := by
  rw [ByteOrder.ntohs_load16, etherType, getD_of_bytes h (by omega), getD_of_bytes h (by omega)]
  rfl

/-- The IP header is found exactly in frames of EtherType 0x0800. -/
theorem taggerNodeGetIpOffset_eq (h : buffer.bytes p.length = p) (hlen : 34 ≤ p.length) :
    taggerNodeGetIpOffset host buffer =
      if etherType p = 0x0800 then some (buffer.advance ethHlen) else none := by
  have hty := loaded_etherType host h hlen
  unfold taggerNodeGetIpOffset
  generalize host.ntohs (host.load16 (buffer.advance 12)) = w at hty
  have hiff : w = ethPIp ↔ etherType p = 0x0800 := by
    rw [← hty, ← UInt16.toNat_inj]
    rfl
  by_cases hip : w = ethPIp
  · rw [if_pos (hiff.mp hip)]
    subst hip
    rfl
  · rw [if_neg (fun he => hip (hiff.mpr he))]
    simp only [hip, if_false, ite_self]

theorem taggerNodeGetIp_eq (h : buffer.bytes p.length = p) (hlen : 34 ≤ p.length) :
    taggerNodeGetIp host buffer = if etherType p = 0x0800 then destination p else 0 := by
  rw [taggerNodeGetIp, taggerNodeGetIpOffset_eq h hlen]
  by_cases hip : etherType p = 0x0800
  · rw [if_pos hip, if_pos hip]
    apply UInt32.toNat.inj
    have h0 := (buffer 30).toNat_lt
    have h1 := (buffer 31).toNat_lt
    have h2 := (buffer 32).toNat_lt
    have h3 := (buffer 33).toNat_lt
    rw [ByteOrder.ntohl_load32, destination, getD_of_bytes h (by omega), getD_of_bytes h (by omega),
      getD_of_bytes h (by omega), getD_of_bytes h (by omega),
      toNat_ofNat32 (by omega)]
    rfl
  · rw [if_neg hip, if_neg hip]

/-- The edited packet, whatever the output buffer held before. -/
theorem taggerNodeEditPacket_spec (host : ByteOrder) (h : buffer.bytes p.length = p)
    (hlen : 12 ≤ p.length) (hle : p.length ≤ 1522) (outputBuffer : Memory UInt8) (vlanId : UInt16) :
    (taggerNodeEditPacket host buffer outputBuffer vlanId (UInt16.ofNat p.length)).1.bytes
        (p.length + 4) = insertTag p (vlanId &&& vlanVidMask).toNat ∧
      (taggerNodeEditPacket host buffer outputBuffer vlanId (UInt16.ofNat p.length)).2.toNat =
        p.length + 4 := by
  have hsize : (UInt16.ofNat p.length).toNat = p.length :=
    toNat_ofNat16 (by omega)
  constructor
  · have htpid := ByteOrder.bytes_store16_htons host ethP8021Q
    have htci := ByteOrder.bytes_store16_htons host (vlanId &&& vlanVidMask)
    have htake : buffer.bytes 12 = p.take 12 := by rw [← Memory.take_bytes buffer hlen, h]
    have hdrop : (buffer.advance 12).bytes (p.length - 12) = p.drop 12 := by
      rw [← Memory.drop_bytes buffer hlen, h]
    simp only [taggerNodeEditPacket, hsize]
    rw [show p.length + 4 = 16 + (p.length - 12) by omega, Memory.bytes_memcpy_append,
      show 16 = 14 + 2 from rfl, Memory.bytes_memcpy_append, htci,
      show 14 = 12 + 2 from rfl, Memory.bytes_memcpy_append, htpid,
      Memory.bytes_memcpy_zero, htake, hdrop, insertTag, vlanTag]
    simp only [List.append_assoc, List.cons_append, List.nil_append]
    rfl
  · simp only [taggerNodeEditPacket]
    rw [UInt16.toNat_add, hsize]
    show (p.length + 4) % 65536 = _
    omega

/-- The loop body passes on exactly `tagFrame`, whatever the buffers hold elsewhere. -/
theorem taggerBody_spec (host : ByteOrder) (ctx : TaggerContext) (h : buffer.bytes p.length = p)
    (hpos : 1 ≤ p.length) (hle : p.length ≤ 1522) (outputBuffer : Memory UInt8) :
    match tagFrame ctx p with
    | none => (taggerBody host ctx buffer outputBuffer p.length).2 = .next
    | some f => ∃ out size, (taggerBody host ctx buffer outputBuffer p.length).2 =
        .sendToOutputs out size ∧ size.toNat = f.length ∧ out.bytes f.length = f := by
  have hone : ¬ ((p.length : Int) < 1) := by omega
  unfold taggerBody tagFrame
  rw [if_neg hone]
  by_cases hshort : p.length < ethHlen + ipHeaderMinLen
  · have hint : (p.length : Int) < ethHlen + ipHeaderMinLen := by exact_mod_cast hshort
    simp only [hshort, hint, true_or, if_true]
  have hint : ¬ ((p.length : Int) < ethHlen + ipHeaderMinLen) := by exact_mod_cast hshort
  have hlen : 34 ≤ p.length := Nat.not_lt.mp hshort
  rw [if_neg hint, taggerNodeGetIp_eq h hlen]
  by_cases hip : etherType p = 0x0800
  · by_cases hzero : destination p = 0
    · simp only [hzero, hip, if_true, or_true]
    · simp only [hshort, hip, hzero, if_true, if_false, not_true_eq_false, or_self, ne_eq]
      by_cases htag : taggerNodeGetTag (destination p) ctx.tagRules = 0
      · simp only [htag, if_true]
      · simp only [htag, if_false]
        obtain ⟨hbytes, hsize⟩ := taggerNodeEditPacket_spec host h (by omega) hle
          outputBuffer (UInt16.ofInt (taggerNodeGetTag (destination p) ctx.tagRules))
        rw [ofInt_natCast (by omega)]
        refine ⟨_, _, rfl, ?_, ?_⟩
        · rw [hsize, length_insertTag (by omega)]
        · rw [length_insertTag (by omega), hbytes, vlanIdOf]
  · simp only [hip, ne_eq, not_false_eq_true, true_or, or_true, if_true, if_false]

end

/-! ## Rule sets the loader accepted -/

theorem taggerNodeGetTag_cons (host : ByteOrder) (addr : UInt32) (r : TagRule)
    (rs : List TaggerRule) :
    taggerNodeGetTag addr (taggerRule host r :: rs) =
      if r.Covers host addr then r.tag else taggerNodeGetTag addr rs := rfl

/-- The scan returns the tag of the first rule that covers the address, and 0 without one. -/
theorem taggerNodeGetTag_cases (host : ByteOrder) (addr : UInt32) (rules : List TagRule) :
    (taggerNodeGetTag addr (rules.map (taggerRule host)) = 0 ∧
      ∀ r ∈ rules, ¬ r.Covers host addr) ∨
    ∃ i : Fin rules.length, (rules.get i).Covers host addr ∧
      taggerNodeGetTag addr (rules.map (taggerRule host)) = (rules.get i).tag := by
  induction rules with
  | nil => exact .inl ⟨rfl, by simp⟩
  | cons r rs ih =>
    rw [List.map_cons, taggerNodeGetTag_cons]
    by_cases hr : r.Covers host addr
    · exact .inr ⟨⟨0, Nat.succ_pos _⟩, hr, if_pos hr⟩
    · rw [if_neg hr]
      rcases ih with ⟨hz, hall⟩ | ⟨i, hi, ht⟩
      · exact .inl ⟨hz, List.forall_mem_cons.mpr ⟨hr, hall⟩⟩
      · exact .inr ⟨i.succ, hi, ht⟩

/-- In a valid rule set an address is covered by one rule at most. -/
theorem covers_unique {host : ByteOrder} {rules : List TagRule} (h : ¬ SharedAddress host rules)
    {addr : UInt32} {i j : Fin rules.length} (hi : (rules.get i).Covers host addr)
    (hj : (rules.get j).Covers host addr) : j = i := by
  by_contra hne
  exact h ⟨j, i, hne, addr, hj, hi⟩

/-- What a tagged frame says about the packet and the rules behind it. -/
theorem tagFrame_some {host : ByteOrder} {rules : List TagRule} (hval : Valid host rules)
    {p f : List UInt8} (h : tagFrame ⟨rules.map (taggerRule host)⟩ p = some f) :
    34 ≤ p.length ∧ etherType p = 0x0800 ∧
      ∃ i : Fin rules.length, (rules.get i).Covers host (destination p) ∧
        (∀ j : Fin rules.length, (rules.get j).Covers host (destination p) → j = i) ∧
        ((vlanIdOf (rules.get i).tag : Int) = (rules.get i).tag) ∧ f = insertTag p (vlanIdOf (rules.get i).tag) := by
  unfold tagFrame at h
  split at h
  · cases h
  next hfilter =>
  simp only [not_or, not_not] at hfilter
  obtain ⟨hlen, hip, -⟩ := hfilter
  split at h
  · cases h
  next htag =>
  cases h
  refine ⟨Nat.not_lt.mp hlen, hip, ?_⟩
  rcases taggerNodeGetTag_cases host (destination p) rules with ⟨hz, -⟩ | ⟨i, hi, ht⟩
  · exact absurd hz htag
  · obtain ⟨hlow, hhigh⟩ := hval.vlanId rules[i] (List.getElem_mem i.isLt)
    refine ⟨i, hi, fun j hj => covers_unique hval.disjoint hi hj, vlanIdOf_of_vlanId hlow hhigh, ?_⟩
    rw [ht]

/-- A packet and what the tagger passed to `node_send_to_outputs` for it. -/
abbrev Handled := Packet × Option (List UInt8)

/-- The loop of one tagger: `pop` delivers a packet, the body works on it. The state is
what the two buffers hold, which is anything at the start. -/
def taggerSystem (host : ByteOrder) (ctx : TaggerContext) :
    System (Memory UInt8 × Memory UInt8) Handled where
  init := fun _ => True
  step := fun s e s' => ∃ packetSize, Delivered e.1 s.1 s'.1 packetSize ∧
    s'.2 = (taggerBody host ctx s'.1 s.2 packetSize).1 ∧
    e.2 = (taggerBody host ctx s'.1 s.2 packetSize).2.frame

theorem taggerBody_frame (host : ByteOrder) (ctx : TaggerContext) {buffer : Memory UInt8}
    {p : List UInt8} (h : buffer.bytes p.length = p) (hpos : 1 ≤ p.length)
    (hle : p.length ≤ 1522) (outputBuffer : Memory UInt8) :
    (taggerBody host ctx buffer outputBuffer p.length).2.frame = tagFrame ctx p := by
  have hspec := taggerBody_spec host ctx h hpos hle outputBuffer
  cases hf : tagFrame ctx p with
  | none =>
    rw [hf] at hspec
    rw [hspec]
    rfl
  | some f =>
    rw [hf] at hspec
    obtain ⟨out, size, heff, hsize, hbytes⟩ := hspec
    rw [heff, Effect.frame, hsize, hbytes]

theorem taggerSystem_step {host : ByteOrder} {ctx : TaggerContext}
    {s s' : Memory UInt8 × Memory UInt8} {e : Handled} (h : (taggerSystem host ctx).step s e s')
    (hle : e.1.bytes.length ≤ 1518) : e.2 = tagFrame ctx e.1.bytes := by
  obtain ⟨packetSize, ⟨hret, hbytes, -⟩, -, hframe⟩ := h
  subst hret
  rw [hframe, taggerBody_frame host ctx hbytes e.1.length_pos (by omega)]

/-- A run of the tagger applies `tagFrame` packet by packet, whatever the buffers held. -/
theorem taggerSystem_run {host : ByteOrder} {ctx : TaggerContext} {tr : List Handled}
    {s : Memory UInt8 × Memory UInt8} (h : (taggerSystem host ctx).Run tr s)
    (hle : ∀ e ∈ tr, e.1.bytes.length ≤ 1518) :
    tr.map (fun e => e.2) = tr.map (fun e => tagFrame ctx e.1.bytes) := by
  induction h with
  | start _ => rfl
  | @snoc tr s s' e run hstep ih =>
    have he := hle e (by simp)
    rw [List.map_append, List.map_append, ih fun e he => hle e (List.mem_append_left _ he),
      List.map_singleton, List.map_singleton, taggerSystem_step hstep he]

/-- Tagging is sound over whole runs: the frames passed on are those of a function of the
single packets, and such a frame is the packet with the tag of the one rule that covers
its destination. -/
theorem tagger_runs_sound {host : ByteOrder} {t t' : TagRules} {file : ConfigFile} {n : Int}
    (hload : tagRulesLoad host t file = some (n, t')) (hn : 0 < n) :
    ∃ ctx, taggerNodeCreate host t'.loaded = some ctx ∧
      (∀ tr s, (taggerSystem host ctx).Run tr s → (∀ e ∈ tr, e.1.bytes.length ≤ 1518) →
        tr.map (fun e => e.2) = tr.map (fun e => tagFrame ctx e.1.bytes)) ∧
      ∀ p f, tagFrame ctx p = some f →
        34 ≤ p.length ∧ etherType p = 0x0800 ∧
        ∃ i : Fin t'.loaded.length, t'.loaded[i].Covers host (destination p) ∧
          (∀ j : Fin t'.loaded.length, t'.loaded[j].Covers host (destination p) → j = i) ∧
          ∃ vid : Nat, (vid : Int) = t'.loaded[i].tag ∧ vid < 4096 ∧
            f = p.take 12 ++ ([0x81, 0x00, UInt8.ofNat (vid / 256), UInt8.ofNat (vid % 256)] ++
              p.drop 12) ∧
            f.length = p.length + 4 ∧ f.take 12 ++ f.drop 16 = p := by
  obtain ⟨hsize, hmax, -, -, hval⟩ := tagRulesLoad_accepts hload (Int.le_of_lt hn)
  have hne : t'.loaded ≠ [] := by
    intro hnil
    have hlen := congrArg List.length hnil
    rw [TagRules.loaded, List.length_take, Vector.length_toList, Nat.min_eq_left hmax,
      List.length_nil] at hlen
    omega
  refine ⟨⟨t'.loaded.map (taggerRule host)⟩, if_neg hne, fun tr s hrun hle => taggerSystem_run hrun hle,
    fun p f hf => ?_⟩
  obtain ⟨hmin, hip, i, hi, huniq, hvid, hframe⟩ := tagFrame_some hval hf
  have hrange := (hval.vlanId (t'.loaded.get i) (List.get_mem _ i)).2
  refine ⟨hmin, hip, i, hi, huniq, _, hvid, by omega, hframe, ?_, ?_⟩
  · rw [hframe, length_insertTag (by omega)]
  · rw [hframe, untag_insertTag (by omega)]

/-- The loop can be given any packets. -/
theorem exists_taggerRun (host : ByteOrder) (ctx : TaggerContext) (ps : List Packet) :
    ∃ tr s, (taggerSystem host ctx).Run tr s ∧ tr.map Prod.fst = ps := by
  induction ps using List.reverseRecOn with
  | nil => exact ⟨[], (fun _ => 0, fun _ => 0), .start trivial, rfl⟩
  | append_singleton ps p ih =>
    obtain ⟨tr, s, hrun, hps⟩ := ih
    let buffer := s.1.memcpy 0 (Memory.ofList p.bytes 0) p.bytes.length
    have hdelivered : Delivered p s.1 buffer p.bytes.length :=
      ⟨rfl, (Memory.bytes_memcpy_zero ..).trans (Memory.bytes_ofList _ _),
        fun i hi => Memory.memcpy_of_ge _ _ (by omega)⟩
    let body := taggerBody host ctx buffer s.2 p.bytes.length
    have hstep : (taggerSystem host ctx).step s (p, body.2.frame) (buffer, body.1) :=
      ⟨p.bytes.length, hdelivered, rfl, rfl⟩
    exact ⟨_, _, hrun.snoc hstep, by rw [List.map_append, hps]; rfl⟩

/-- One range. -/
def oneRule : ConfigFile := ⟨true, ofString "10.0.0.0-10.0.0.255-7\n", none, true⟩

theorem oneRule_loads : (tagRulesLoad .little .zero oneRule).map (fun r => (r.1, r.2.loaded)) =
    some (1, [⟨0x0000000a, 0xff00000a, 7⟩]) := by decide +kernel

/-- An IPv4 frame of 34 bytes with the destination `a.b.c.d`. -/
def ipv4Frame (a b c d : UInt8) : List UInt8 :=
  List.replicate 12 0x02 ++ [0x08, 0x00] ++ List.replicate 16 0x45 ++ [a, b, c, d]

/-- Of three frames the first and the last are for an address of the range. -/
theorem tagger_runs_sound_three :
    ∃ t' ctx tr s, tagRulesLoad .little .zero oneRule = some (1, t') ∧
      taggerNodeCreate .little t'.loaded = some ctx ∧ (taggerSystem .little ctx).Run tr s ∧
      tr.map (fun e => e.1.bytes) = [ipv4Frame 10 0 0 1, ipv4Frame 10 0 1 1, ipv4Frame 10 0 0 2] ∧
      tr.map (fun e => e.2) =
        [some (insertTag (ipv4Frame 10 0 0 1) 7), none, some (insertTag (ipv4Frame 10 0 0 2) 7)] := by
  obtain ⟨⟨n, t'⟩, hload, heq⟩ := Option.map_eq_some_iff.mp oneRule_loads
  obtain ⟨rfl, hrules⟩ := Prod.mk.inj heq
  have hrules' : t'.loaded = [⟨0x0000000a, 0xff00000a, 7⟩] := hrules
  obtain ⟨ctx, hctx, hruns, -⟩ := tagger_runs_sound hload (by decide)
  have hone : ctx = ⟨[⟨0x0a000000, 0x0a0000ff, 7⟩]⟩ := by
    rw [hrules'] at hctx
    exact (Option.some.inj (hctx.symm.trans (by decide +kernel)))
  subst hone
  obtain ⟨tr, s, hrun, hps⟩ := exists_taggerRun .little ⟨[⟨0x0a000000, 0x0a0000ff, 7⟩]⟩
    [⟨ipv4Frame 10 0 0 1, by decide, by decide⟩, ⟨ipv4Frame 10 0 1 1, by decide, by decide⟩,
      ⟨ipv4Frame 10 0 0 2, by decide, by decide⟩]
  have hbytes : tr.map (fun e => e.1.bytes) =
      [ipv4Frame 10 0 0 1, ipv4Frame 10 0 1 1, ipv4Frame 10 0 0 2] := by
    have hmap := congrArg (List.map Packet.bytes) hps
    rwa [List.map_map] at hmap
  have hsize : ∀ e ∈ tr, e.1.bytes.length ≤ 1518 := by
    rw [← List.forall_mem_map (f := fun e : Handled => e.1.bytes) (P := fun p => p.length ≤ 1518), hbytes]
    decide
  refine ⟨t', _, tr, s, hload, hctx, hrun, hbytes, ?_⟩
  have hframes := congrArg (List.map (tagFrame ⟨[⟨0x0a000000, 0x0a0000ff, 7⟩]⟩)) hbytes
  rw [List.map_map] at hframes
  rw [hruns tr s hrun hsize]
  exact hframes.trans (by decide +kernel)

/-! ## Completeness -/

/-- The 12 bits of the VLAN ID of a tagged frame. -/
def vlanId (f : List UInt8) : Nat := ((f.getD 14 0).toNat * 256 + (f.getD 15 0).toNat) % 4096

theorem getD_insertTag {p : List UInt8} (h : 12 ≤ p.length) (vid : Nat) {k : Nat} (hk : k < 4) :
    (insertTag p vid).getD (12 + k) 0 = (vlanTag vid).getD k 0 := by
  have hl : (p.take 12).length = 12 := by rw [List.length_take, Nat.min_eq_left h]
  have hv : k < (vlanTag vid).length := hk
  rw [insertTag, List.getD_eq_getElem?_getD, List.getD_eq_getElem?_getD,
    List.getElem?_append_right (by omega), hl, Nat.add_sub_cancel_left,
    List.getElem?_append_left hv]

theorem etherType_insertTag {p : List UInt8} (h : 12 ≤ p.length) (vid : Nat) :
    etherType (insertTag p vid) = 0x8100 := by
  have h0 : (insertTag p vid).getD 12 0 = 0x81 := getD_insertTag h vid (k := 0) (by decide)
  have h1 : (insertTag p vid).getD 13 0 = 0x00 := getD_insertTag h vid (k := 1) (by decide)
  rw [etherType, h0, h1]
  rfl

/-- The EtherType of the frame moves behind the tag. -/
theorem etherType_behind_tag {p : List UInt8} (h : 12 ≤ p.length) (vid : Nat) :
    etherType ((insertTag p vid).drop 4) = etherType p := by
  have hbehind : ∀ k, ((insertTag p vid).drop 4).getD (12 + k) 0 = p.getD (12 + k) 0 := by
    intro k
    have hshift : 4 + (12 + k) = 16 + k := by omega
    rw [List.getD_eq_getElem?_getD, List.getD_eq_getElem?_getD, List.getElem?_drop, hshift,
      ← List.getElem?_drop, drop_insertTag h, List.getElem?_drop]
  have h12 := hbehind 0
  have h13 := hbehind 1
  rw [Nat.add_zero] at h12
  rw [etherType, h12, h13, etherType]

/-- A tagged frame is not tagged again. -/
theorem tagFrame_tagged {ctx ctx' : TaggerContext} {p f : List UInt8} (h : tagFrame ctx p = some f) :
    tagFrame ctx' f = none := by
  obtain ⟨hlen, -, vid, rfl⟩ := tagFrame_eq_insertTag h
  unfold tagFrame
  rw [if_pos]
  rw [etherType_insertTag (by omega)]
  exact .inr (.inl (by decide))

theorem vlanId_insertTag {p : List UInt8} (h : 12 ≤ p.length) {vid : Nat} (hv : vid < 4096) :
    vlanId (insertTag p vid) = vid := by
  have h2 : (insertTag p vid).getD 14 0 = UInt8.ofNat (vid / 256) :=
    getD_insertTag h vid (k := 2) (by decide)
  have h3 : (insertTag p vid).getD 15 0 = UInt8.ofNat (vid % 256) :=
    getD_insertTag h vid (k := 3) (by decide)
  have hhigh : (UInt8.ofNat (vid / 256)).toNat = vid / 256 :=
    toNat_ofNat8 (by omega)
  have hlow : (UInt8.ofNat (vid % 256)).toNat = vid % 256 :=
    toNat_ofNat8 (by omega)
  rw [vlanId, h2, h3, hhigh, hlow]
  omega

/-- Where no address has two rules, the lookup finds the rule that covers the address. -/
theorem taggerNodeGetTag_eq_tag {host : ByteOrder} {rules : List TagRule}
    (hd : ¬ SharedAddress host rules) {r : TagRule} (hr : r ∈ rules) {addr : UInt32}
    (hcov : r.Covers host addr) : taggerNodeGetTag addr (rules.map (taggerRule host)) = r.tag := by
  obtain ⟨i, hi, rfl⟩ := List.getElem_of_mem hr
  rcases taggerNodeGetTag_cases host addr rules with ⟨-, hall⟩ | ⟨j, hj, ht⟩
  · exact absurd hcov (hall _ hr)
  · have heq := covers_unique hd (i := ⟨i, hi⟩) hcov hj
    rw [ht, heq]
    rfl

/-- The rule that covers the destination decides, through its tag alone. -/
theorem tagFrame_covered {host : ByteOrder} {rules : List TagRule} (hval : Valid host rules)
    {p : List UInt8} (hlen : 34 ≤ p.length) (hip : etherType p = 0x0800) {r : TagRule}
    (hr : r ∈ rules) (hcov : r.Covers host (destination p)) :
    tagFrame ⟨rules.map (taggerRule host)⟩ p =
      if destination p = 0 ∨ r.tag = 0 then none else some (insertTag p (vlanIdOf r.tag)) := by
  have htag := taggerNodeGetTag_eq_tag hval.disjoint hr hcov
  have hshort : ¬ p.length < ethHlen + ipHeaderMinLen := Nat.not_lt.mpr hlen
  unfold tagFrame
  simp only [hshort, hip, htag, false_or, ne_eq, not_true_eq_false]
  by_cases hzero : destination p = 0
  · simp only [hzero, true_or, if_true]
  · simp only [hzero, false_or, if_false]

/-- A covered IPv4 frame is passed on with the tag of its rule exactly when neither its
destination nor that tag has the value 0, which the tagger reads as "nothing found". -/
theorem tagger_completes_iff {host : ByteOrder} {t t' : TagRules} {file : ConfigFile} {n : Int}
    {ctx : TaggerContext} {p : List UInt8} {r : TagRule} {buffer : Memory UInt8}
    (hload : tagRulesLoad host t file = some (n, t')) (hn : 0 ≤ n)
    (hctx : taggerNodeCreate host t'.loaded = some ctx)
    (hmin : 34 ≤ p.length) (hmax : p.length ≤ 1518) (hip : etherType p = 0x0800)
    (hr : r ∈ t'.loaded) (hcov : r.Covers host (destination p))
    (hbuffer : buffer.bytes p.length = p) (outputBuffer : Memory UInt8) :
    (∃ f, (taggerBody host ctx buffer outputBuffer p.length).2.frame = some f ∧
      etherType f = 0x8100 ∧ (vlanId f : Int) = r.tag) ↔ destination p ≠ 0 ∧ r.tag ≠ 0 := by
  obtain ⟨-, -, -, -, hval⟩ := tagRulesLoad_accepts hload hn
  have hrules : ctx = ⟨t'.loaded.map (taggerRule host)⟩ := by
    unfold taggerNodeCreate at hctx
    split at hctx
    · cases hctx
    · cases hctx
      rfl
  obtain ⟨hlow, hhigh⟩ := hval.vlanId r hr
  have hvid := vlanIdOf_of_vlanId hlow hhigh
  rw [taggerBody_frame host ctx hbuffer (by omega) (by omega) outputBuffer, hrules,
    tagFrame_covered hval hmin hip hr hcov]
  constructor
  · intro h
    obtain ⟨f, hf, -, -⟩ := h
    split at hf
    · cases hf
    next hne => exact not_or.mp hne
  · intro hne
    refine ⟨_, if_neg (not_or.mpr hne), etherType_insertTag (by omega) _, ?_⟩
    rw [vlanId_insertTag (by omega) (by omega), hvid]

/-- A range that starts at 0.0.0.0 and a range of VLAN ID 0. -/
def zeroRules : ConfigFile :=
  ⟨true, ofString "0.0.0.0-10.1.0.0-100\n10.2.0.0-10.2.255.255-0\n", none, true⟩

theorem zeroRules_loads :
    (tagRulesLoad .little .zero zeroRules).map (fun r => (r.1, r.2.loaded)) =
      some (2, [⟨0x00000000, 0x0000010a, 100⟩, ⟨0x0000020a, 0xffff020a, 0⟩]) := by
  decide +kernel

/-- Both rules are accepted, and a frame to 0.0.0.0 and one to 10.2.0.1 are discarded
although a rule covers each of them. -/
theorem tagger_discards_covered :
    ∃ t' ctx, tagRulesLoad .little .zero zeroRules = some (2, t') ∧
      taggerNodeCreate .little t'.loaded = some ctx ∧
      ∀ p ∈ [ipv4Frame 0 0 0 0, ipv4Frame 10 2 0 1],
        34 ≤ p.length ∧ p.length ≤ 1518 ∧ etherType p = 0x0800 ∧
        (∃ r ∈ t'.loaded, r.Covers .little (destination p)) ∧
        (taggerBody .little ctx (Memory.ofList p 0) (fun _ => 0) p.length).2.frame = none := by
  obtain ⟨⟨n, t'⟩, hload, heq⟩ := Option.map_eq_some_iff.mp zeroRules_loads
  obtain ⟨rfl, hrules⟩ := Prod.mk.inj heq
  have hrules' : t'.loaded = [⟨0x00000000, 0x0000010a, 100⟩, ⟨0x0000020a, 0xffff020a, 0⟩] := hrules
  refine ⟨t', ⟨[⟨0, 0x0a010000, 100⟩, ⟨0x0a020000, 0x0a02ffff, 0⟩]⟩, hload, ?_⟩
  rw [hrules']
  exact ⟨by decide +kernel, by decide +kernel⟩

/-- A frame to 10.0.0.1 under the same rules leaves with VLAN ID 100. -/
theorem tagger_completes_covered :
    ∃ ctx, ∃ f, (taggerBody .little ctx (Memory.ofList (ipv4Frame 10 0 0 1) 0) (fun _ => 0)
        (ipv4Frame 10 0 0 1).length).2.frame = some f ∧
      etherType f = 0x8100 ∧ (vlanId f : Int) = 100 := by
  obtain ⟨⟨n, t'⟩, hload, heq⟩ := Option.map_eq_some_iff.mp zeroRules_loads
  obtain ⟨rfl, hrules⟩ := Prod.mk.inj heq
  have hne : t'.loaded ≠ [] := by
    rw [hrules]
    simp
  have hmem : (⟨0x00000000, 0x0000010a, 100⟩ : TagRule) ∈ t'.loaded := by
    rw [hrules]
    exact List.mem_cons_self
  refine ⟨_, (tagger_completes_iff hload (by decide) (if_neg hne) (by decide) (by decide)
    (by decide +kernel) hmem (by decide +kernel) (Memory.bytes_ofList _ _) _).mpr ?_⟩
  decide +kernel

end VlanTagger.Nodes
