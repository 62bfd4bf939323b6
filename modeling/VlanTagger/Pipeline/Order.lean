import VlanTagger.Pipeline.Hops

/-!
# The order of the frames

Behind the dispatcher everything is a queue, so the frames of one tagger reach `sendto` in
the order in which they were dealt to it, and that is the order of their capture. The way
of a frame is a line of places; what is read off such a line only loses frames, at any
place, and gets new ones at its near end. The two lines meet at the packet counter, where
what belongs to the other tagger does not count.
-/
namespace VlanTagger.Pipeline

open Lib Nodes Queue

/-! ## Shares -/

/-- What is dealt to the queue `k` when it has every second turn. -/
def share (k : Channel) (popped : List Nat) : List Nat :=
  (popped.zipIdx.filter fun x => turn x.2 = k).map Prod.fst

theorem share_sublist (k : Channel) (popped : List Nat) : (share k popped).Sublist popped := by
  have hmap := (List.filter_sublist (p := fun x => decide (turn x.2 = k)) (l := popped.zipIdx)).map
    Prod.fst
  rwa [List.zipIdx_map_fst] at hmap

theorem share_snoc (k : Channel) (popped : List Nat) (id : Nat) :
    share k (popped ++ [id]) = share k popped ++ if turn popped.length = k then [id] else [] := by
  simp only [share, List.zipIdx_append, List.filter_append, List.map_append]
  congr 1
  by_cases hk : turn popped.length = k
  · simp [hk]
  · simp [hk]

theorem mem_share {k : Channel} {popped : List Nat} {id : Nat} :
    id ∈ share k popped ↔ ∃ i : Nat, popped[i]? = some id ∧ turn i = k := by
  constructor
  · intro h
    obtain ⟨⟨a, i⟩, hx, rfl⟩ := List.mem_map.mp h
    obtain ⟨hx, hk⟩ := List.mem_filter.mp hx
    exact ⟨i, List.mk_mem_zipIdx_iff_getElem?.mp hx, of_decide_eq_true hk⟩
  · rintro ⟨i, hi, hk⟩
    exact List.mem_map.mpr ⟨(id, i), List.mem_filter.mpr
      ⟨List.mk_mem_zipIdx_iff_getElem?.mpr hi, decide_eq_true hk⟩, rfl⟩

/-- Nothing is dealt to both queues. -/
theorem share_disjoint {k k' : Channel} {popped : List Nat} (hnodup : popped.Nodup) {id : Nat}
    (h : id ∈ share k popped) (h' : id ∈ share k' popped) : k = k' := by
  obtain ⟨i, hi, rfl⟩ := mem_share.mp h
  obtain ⟨j, hj, rfl⟩ := mem_share.mp h'
  obtain ⟨hlt, hget⟩ := List.getElem?_eq_some_iff.mp hi
  obtain ⟨hlt', hget'⟩ := List.getElem?_eq_some_iff.mp hj
  rw [(hnodup.getElem_inj_iff.mp (hget.trans hget'.symm) : i = j)]

/-- A tagger and its queue. -/
inductive Worker : Station → Channel → Prop
  | tagger1 : Worker .tagger1 .tagger1
  | tagger2 : Worker .tagger2 .tagger2

/-! ## Up to the dispatcher -/

/-- The frames come to the dispatcher in the order of their capture. -/
def CaptureOrder (L : Ledger Station Channel) : Prop :=
  (L.popped ++ L.tokens.along [.queue .dispatcher, .buffer .sniffer]).Sublist
    (List.range L.tokens.issued.length)

section

variable {L L' : Ledger Station Channel} {p q : Place Station Channel} {id : Nat} {ids : List Nat}

theorem popped_take (h : L.tokens.held p = id :: ids) :
    Ledger.popped { L with tokens := L.tokens.move p (.buffer .dispatcher) } = L.popped ++ [id] :=
  Tokens.arrived_move_target h

/-- Another node that pops does not fill the hands of the dispatcher. -/
theorem ne_of_take {n : Station} (hn : n ≠ .dispatcher)
    (goes : q = .buffer n ∨ q = .discarded n ∧ n ≠ .dispatcher) : q ≠ .buffer .dispatcher := by
  rcases goes with rfl | ⟨rfl, -⟩
  · exact fun heq => hn (Place.buffer.inj heq)
  · exact nofun

theorem ne_of_push {k : Channel} (goes : q = .queue k ∨ q = .dropped k) : q ≠ .buffer .dispatcher := by
  rcases goes with rfl | rfl <;> exact nofun

theorem ne_of_send (goes : q = .failed .sender ∨ q = .sent .sender) : q ≠ .buffer .dispatcher := by
  rcases goes with rfl | rfl <;> exact nofun

theorem CaptureOrder.elsewhere (h : CaptureOrder L)
    (hp : p ∉ ([.queue .dispatcher, .buffer .sniffer] : List (Place Station Channel)))
    (hq : q ∉ ([.queue .dispatcher, .buffer .sniffer, .buffer .dispatcher] :
      List (Place Station Channel))) (handed' : List (Nat × List UInt8)) :
    CaptureOrder ⟨L.tokens.move p q, handed'⟩ := by
  simp only [List.mem_cons, not_or] at hq
  unfold CaptureOrder
  rw [popped_move_of_ne hq.2.2.1, Tokens.along_move_of_notMem hp (by simp [hq]), Tokens.issued_move]
  exact h

theorem captureOrder_hop (h : CaptureOrder L) (hs : Hop L L') : CaptureOrder L' := by
  cases hs with
  | stay => exact h
  | capture frame =>
    have halong : (L.tokens.issue frame (.buffer .sniffer)).along
        ([.queue .dispatcher] ++ [.buffer .sniffer]) =
          L.tokens.along ([.queue .dispatcher] ++ [.buffer .sniffer]) ++ [L.tokens.issued.length] :=
      Tokens.along_issue_last frame (by decide)
    unfold CaptureOrder
    rw [popped_issue, Tokens.issued_issue, List.length_append, List.length_singleton, List.range_succ]
    show (L.popped ++ (L.tokens.issue frame (.buffer .sniffer)).along
      ([.queue .dispatcher] ++ [.buffer .sniffer])).Sublist _
    rw [halong, ← List.append_assoc]
    exact h.append (List.Sublist.refl _)
  | @take n k id ids target input held goes =>
    cases n with
    | dispatcher =>
      cases input
      obtain rfl := goes.resolve_right fun hgoes => hgoes.2 rfl
      have halong := Tokens.along_move_first (q := .buffer .dispatcher) held
        (show _ ∉ [.buffer .sniffer] by decide) (by decide)
      unfold CaptureOrder
      rw [popped_take held, Tokens.issued_move, List.append_assoc, List.singleton_append, ← halong]
      exact h
    | sniffer => cases input
    | _ =>
      cases input
      rcases goes with rfl | ⟨rfl, -⟩ <;> exact h.elsewhere (by decide) (by decide) _
  | @push n k id target output held turn goes =>
    cases n with
    | sniffer =>
      obtain rfl : k = .dispatcher := List.mem_singleton.mp output
      unfold CaptureOrder
      rw [popped_move_of_ne (ne_of_push goes), Tokens.issued_move]
      rcases goes with rfl | rfl
      · rw [Tokens.along_move_next (by decide) (by decide)]
        exact h
      · exact ((List.Sublist.refl _).append (Tokens.along_move_out (by decide))).trans h
    | _ =>
      refine h.elsewhere (by decide) ?_ _
      rcases goes with rfl | rfl <;> cases k <;> first | exact absurd output (by decide) | decide
  | send held goes =>
    rcases goes with rfl | rfl <;> exact h.elsewhere (by decide) (by decide) _

theorem CaptureOrder.pairwise_lt (h : CaptureOrder L) : L.popped.Pairwise (· < ·) :=
  List.pairwise_lt_range.sublist ((List.sublist_append_left _ _).trans h)

theorem CaptureOrder.nodup (h : CaptureOrder L) : L.popped.Nodup :=
  h.pairwise_lt.imp Nat.ne_of_lt

/-- What waits for the dispatcher has not been popped. -/
theorem CaptureOrder.notMem_popped (h : CaptureOrder L)
    (hid : id ∈ L.tokens.held (.queue .dispatcher)) : id ∉ L.popped := by
  have hdisj := List.disjoint_of_nodup_append (List.nodup_range.sublist h)
  exact fun hmem => hdisj hmem (Tokens.mem_along.mpr ⟨_, List.mem_cons_self, hid⟩)

/-! ## From the dispatcher to the taggers -/

/-- What has come to a tagger's queue, or was refused by it, had that queue's turn. -/
def Dealt (L : Ledger Station Channel) : Prop :=
  ∀ n k, Worker n k → ∀ id p, (id, p) ∈ L.tokens.arrivals →
    p = .queue k ∨ p = .dropped k ∨ p = .buffer n → id ∈ share k L.popped

/-- The packet in the hands of the dispatcher is the last that it has popped. -/
theorem popped_of_held (hqueued : L.tokens.Queued) (hheld : L.tokens.held (.buffer .dispatcher) = [id]) :
    ∃ before, L.popped = before ++ [id] := by
  obtain ⟨before, hbefore⟩ := hqueued (.buffer .dispatcher)
  rw [hheld] at hbefore
  exact ⟨before, hbefore.symm⟩

/-- It was the turn of the queue that the dispatcher pushes to. -/
theorem mem_share_of_turn {k : Channel} (hqueued : L.tokens.Queued)
    (hheld : L.tokens.held (.buffer .dispatcher) = [id])
    (hturn : ∃ i, L.popped.length = i + 1 ∧ k = turn i) : id ∈ share k L.popped := by
  obtain ⟨before, hbefore⟩ := popped_of_held hqueued hheld
  obtain ⟨i, hlen, rfl⟩ := hturn
  rw [hbefore, List.length_append, List.length_singleton] at hlen
  obtain rfl : before.length = i := by omega
  rw [hbefore, share_snoc, if_pos rfl]
  exact List.mem_append_right _ (List.mem_singleton_self id)

/-- What holds of the token that moves holds of all that have come to the new place. -/
theorem Dealt.move (h : Dealt L) (hheld : L.tokens.held p = id :: ids) (hq : q ≠ .buffer .dispatcher)
    (hnew : ∀ n k, Worker n k → q = .queue k ∨ q = .dropped k ∨ q = .buffer n →
      id ∈ share k L.popped) (handed' : List (Nat × List UInt8)) :
    Dealt ⟨L.tokens.move p q, handed'⟩ := by
  intro n k hw i r hmem hr
  rw [popped_move_of_ne hq]
  rcases (Tokens.mem_arrivals_move hheld).mp hmem with hmem | heq
  · exact h n k hw i r hmem hr
  · cases heq
    exact hnew n k hw hr

/-- The hands of the dispatcher are not a tagger's. -/
theorem Dealt.pop (h : Dealt L) (hheld : L.tokens.held p = id :: ids) :
    Dealt { L with tokens := L.tokens.move p (.buffer .dispatcher) } := by
  intro n k hw i r hmem hr
  rw [popped_take hheld, share_snoc]
  rcases (Tokens.mem_arrivals_move hheld).mp hmem with hmem | heq
  · exact List.mem_append_left _ (h n k hw i r hmem hr)
  · cases heq
    cases hw <;> rcases hr with hr | hr | hr <;> cases hr

theorem dealt_hop (hqueued : L.tokens.Queued) (h : Dealt L) (hs : Hop L L') : Dealt L' := by
  cases hs with
  | stay => exact h
  | capture frame =>
    intro n k hw id p hmem hp
    rw [popped_issue]
    rw [Tokens.arrivals_issue, List.mem_append, List.mem_singleton] at hmem
    rcases hmem with hmem | heq
    · exact h n k hw id p hmem hp
    · cases heq
      cases hw <;> rcases hp with hp | hp | hp <;> cases hp
  | @take m k' id ids target input held goes =>
    by_cases hm : m = .dispatcher
    · subst hm
      obtain rfl := goes.resolve_right fun hgoes => hgoes.2 rfl
      exact h.pop held
    · refine h.move held (ne_of_take hm goes) (fun n k hw htarget => ?_) _
      rcases goes with rfl | ⟨rfl, -⟩
      · -- it comes to the tagger from the tagger's queue
        obtain rfl : m = n := by
          rcases htarget with hp | hp | hp
          · cases hp
          · cases hp
          · exact Place.buffer.inj hp
        obtain rfl : k' = k := by cases hw <;> cases input <;> rfl
        exact h m k' hw id _ (hqueued.mem_arrivals (held ▸ List.mem_cons_self)) (.inl rfl)
      · rcases htarget with hp | hp | hp <;> cases hp
  | @push m k' id target output held turn goes =>
    refine h.move held (ne_of_push goes) (fun n k hw htarget => ?_) _
    obtain rfl : k' = k := by
      rcases goes with rfl | rfl <;> rcases htarget with hp | hp | hp <;> cases hp <;> rfl
    obtain rfl : m = .dispatcher := by
      cases hw <;> cases m <;> first | rfl | exact absurd output (by decide)
    exact mem_share_of_turn hqueued held (turn rfl)
  | send held goes =>
    refine h.move held (ne_of_send goes) (fun n k hw htarget => ?_) _
    rcases goes with rfl | rfl <;> rcases htarget with hp | hp | hp <;> cases hp

/-! ## From the taggers to `sendto` -/

/-- The places that the frames of a tagger go through, from the last to the first. -/
def line (n : Station) (k : Channel) : List (Place Station Channel) :=
  [.buffer .sender, .queue .sender, .buffer .packetCounter, .queue .packetCounter, .buffer n,
    .queue k, .buffer .dispatcher]

/-- The frames that have been handed to `sendto`, and then those on the line. -/
def Ledger.lineUp (L : Ledger Station Channel) (n : Station) (k : Channel) : List Nat :=
  L.handed.map Prod.fst ++ L.tokens.along (line n k)

/-- The frames of one tagger come to `sendto` in the order in which they were dealt to it. -/
def Kept (n : Station) (k : Channel) (L : Ledger Station Channel) : Prop :=
  ((L.lineUp n k).filter fun id => id ∈ share k L.popped).Sublist (share k L.popped)

section

variable {n : Station} {k : Channel}

theorem Kept.of_filter (h : Kept n k L) (hpopped : L'.popped = L.popped)
    (hsub : ((L'.lineUp n k).filter fun id => id ∈ share k L.popped).Sublist
      ((L.lineUp n k).filter fun id => id ∈ share k L.popped)) : Kept n k L' := by
  unfold Kept
  rw [hpopped]
  exact hsub.trans h

/-- A frame moves on, or leaves the line, or is none of this tagger. -/
theorem Kept.move (hw : Worker n k) (h : Kept n k L) (hheld : L.tokens.held p = id :: ids)
    (hq : q ≠ .buffer .dispatcher)
    (hmove : [q, p] <:+: line n k ∨ q ∉ line n k ∨ p ∉ line n k ∧ id ∉ share k L.popped) :
    Kept n k { L with tokens := L.tokens.move p q } := by
  apply h.of_filter (popped_move_of_ne hq _)
  simp only [Ledger.lineUp, List.filter_append]
  apply (List.Sublist.refl _).append
  rcases hmove with hnext | hout | ⟨hp, hid⟩
  · rw [Tokens.along_move_next hnext (by cases hw <;> decide)]
  · exact (Tokens.along_move_out hout).filter _
  · rw [Tokens.along_move_filter hheld hp (decide_eq_false hid)]

/-- No frame that waits for the dispatcher is further on. -/
theorem notMem_lineUp (honce : L.HandedOnce) (hw : Worker n k)
    (hid : id ∈ L.tokens.held (.queue .dispatcher)) : id ∉ L.lineUp n k := by
  intro hmem
  rcases List.mem_append.mp hmem with hmem | hmem
  · obtain ⟨p, hp, hheld⟩ := (honce.mem_iff id).mp hmem
    rw [honce.exclusive.disjoint hheld hid] at hp
    cases hp
  · obtain ⟨p, hp, hheld⟩ := Tokens.mem_along.mp hmem
    rw [honce.exclusive.disjoint hheld hid] at hp
    cases hw <;> exact absurd hp (by decide)

/-- The dispatcher pops a packet, which stands last on both lines. -/
theorem Kept.pop (honce : L.HandedOnce) (horder : CaptureOrder L) (hw : Worker n k)
    (h : Kept n k L) (hheld : L.tokens.held (.queue .dispatcher) = id :: ids) :
    Kept n k { L with tokens := L.tokens.move (.queue .dispatcher) (.buffer .dispatcher) } := by
  have hwaits : id ∈ L.tokens.held (.queue .dispatcher) := by
    rw [hheld]
    exact List.mem_cons_self
  have hfresh := notMem_lineUp honce hw hwaits
  have hnew : id ∉ share k L.popped := fun hmem =>
    horder.notMem_popped hwaits ((share_sublist k L.popped).subset hmem)
  have hlast : Ledger.lineUp
      { L with tokens := L.tokens.move (.queue .dispatcher) (.buffer .dispatcher) } n k =
        L.lineUp n k ++ [id] := by
    have halong : (L.tokens.move (.queue .dispatcher) (.buffer .dispatcher)).along
        ([.buffer .sender, .queue .sender, .buffer .packetCounter, .queue .packetCounter, .buffer n,
          .queue k] ++ [.buffer .dispatcher]) = L.tokens.along (line n k) ++ [id] :=
      Tokens.along_move_last hheld (by cases hw <;> decide) (by cases hw <;> decide)
    unfold Ledger.lineUp
    rw [List.append_assoc]
    exact congrArg (L.handed.map Prod.fst ++ ·) halong
  have hold : (L.lineUp n k).filter (fun i => i ∈ share k (L.popped ++ [id])) =
      (L.lineUp n k).filter fun i => i ∈ share k L.popped := by
    refine List.filter_congr fun i hi => ?_
    have hne : i ≠ id := fun heq => hfresh (heq ▸ hi)
    rw [decide_eq_decide, share_snoc, List.mem_append]
    split <;> simp [hne]
  unfold Kept
  rw [popped_take hheld, hlast, List.filter_append, hold, share_snoc]
  apply h.append
  by_cases hturn : turn L.popped.length = k
  · rw [if_pos hturn]
    exact List.filter_sublist
  · rw [if_neg hturn, List.append_nil, List.filter_singleton]
    simp [hnew]

/-- The frame in the hands of the other tagger is none of this one. -/
theorem notMem_share_other (hqueued : L.tokens.Queued) (horder : CaptureOrder L) (hdealt : Dealt L)
    {n' : Station} {k' : Channel} (hw' : Worker n' k') (hne : k' ≠ k)
    (hheld : id ∈ L.tokens.held (.buffer n')) : id ∉ share k L.popped := by
  intro hmem
  have hother := hdealt n' k' hw' id _ (hqueued.mem_arrivals hheld) (.inr (.inr rfl))
  exact hne (share_disjoint horder.nodup hother hmem)

/-- The sender hands the frame at the far end of both lines to `sendto`. -/
theorem Kept.send (hw : Worker n k) (h : Kept n k L)
    (hheld : L.tokens.held (.buffer .sender) = [id]) (hq : q = .failed .sender ∨ q = .sent .sender)
    (frame : List UInt8) :
    Kept n k ⟨L.tokens.move (.buffer .sender) q, L.handed ++ [(id, frame)]⟩ := by
  have hsame : Ledger.lineUp ⟨L.tokens.move (.buffer .sender) q, L.handed ++ [(id, frame)]⟩ n k =
      L.lineUp n k := by
    have halong : L.tokens.along (line n k) =
        id :: (L.tokens.move (.buffer .sender) q).along (line n k) :=
      Tokens.along_move_first hheld (by cases hw <;> decide)
        (by rcases hq with rfl | rfl <;> cases hw <;> decide)
    unfold Ledger.lineUp
    rw [halong, List.map_append, List.map_singleton, List.append_assoc, List.singleton_append]
  apply h.of_filter (popped_move_of_ne (ne_of_send hq) _)
  rw [hsame]

end

theorem kept_hop (honce : L.HandedOnce) (hqueued : L.tokens.Queued) (horder : CaptureOrder L)
    (hdealt : Dealt L) {n : Station} {k : Channel} (hw : Worker n k) (h : Kept n k L)
    (hs : Hop L L') : Kept n k L' := by
  cases hs with
  | stay => exact h
  | capture frame =>
    apply h.of_filter (popped_issue frame)
    simp only [Ledger.lineUp]
    rw [Tokens.along_issue_of_notMem frame (by cases hw <;> decide)]
  | @take m k' id ids target input held goes =>
    by_cases hm : m = .dispatcher
    · subst hm
      cases input
      obtain rfl := goes.resolve_right fun hgoes => hgoes.2 rfl
      exact h.pop honce horder hw held
    · apply h.move hw held (ne_of_take hm goes)
      rcases goes with rfl | ⟨rfl, -⟩
      · cases hw <;> cases m <;> cases input <;>
          first | exact absurd rfl hm | exact .inl (by decide) | exact .inr (.inl (by decide))
      · exact .inr (.inl (by cases hw <;> simp [line]))
  | @push m k' id target output held turn goes =>
    apply h.move hw held (ne_of_push goes)
    rcases goes with rfl | rfl
    · have hin : id ∈ L.tokens.held (.buffer m) := by
        rw [held]
        exact List.mem_cons_self
      cases m with
      | sniffer =>
        cases List.mem_singleton.mp output
        exact .inr (.inl (by cases hw <;> decide))
      | tagger1 =>
        cases List.mem_singleton.mp output
        cases hw with
        | tagger1 => exact .inl (by decide)
        | tagger2 =>
          exact .inr (.inr ⟨by decide,
            notMem_share_other hqueued horder hdealt .tagger1 (by decide) hin⟩)
      | tagger2 =>
        cases List.mem_singleton.mp output
        cases hw with
        | tagger1 =>
          exact .inr (.inr ⟨by decide,
            notMem_share_other hqueued horder hdealt .tagger2 (by decide) hin⟩)
        | tagger2 => exact .inl (by decide)
      | packetCounter =>
        cases List.mem_singleton.mp output
        exact .inl (by cases hw <;> decide)
      | sender => cases output
      | dispatcher =>
        cases hw <;> cases k' <;> first
          | exact absurd output (by decide)
          | exact .inl (by decide)
          | exact .inr (.inl (by decide))
    · exact .inr (.inl (by cases hw <;> simp [line]))
  | @send id frame target held goes => exact h.send hw held goes frame

/-! ## Where frames have been -/

/-- Behind a tagger. -/
def Tagged (p : Place Station Channel) : Prop :=
  p = .queue .packetCounter ∨ p = .buffer .packetCounter ∨ p = .queue .sender ∨ p = .buffer .sender ∨
    p.isHanded = true

/-- Every frame that is behind the taggers has been in the hands of one. -/
def Produced (L : Ledger Station Channel) : Prop :=
  ∀ id p, (id, p) ∈ L.tokens.arrivals → Tagged p → ∃ n k, Worker n k ∧ (id, .buffer n) ∈ L.tokens.arrivals

/-- Every packet that the dispatcher has popped is in its hands or has been pushed. -/
def Pushed (L : Ledger Station Channel) : Prop :=
  ∀ id ∈ L.popped, id ∈ L.tokens.held (.buffer .dispatcher) ∨
    ∃ n k, Worker n k ∧ ((id, .queue k) ∈ L.tokens.arrivals ∨ (id, .dropped k) ∈ L.tokens.arrivals)

theorem Produced.move (hqueued : L.tokens.Queued) (h : Produced L)
    (hheld : L.tokens.held p = id :: ids) (hfrom : Tagged q → (∃ n k, Worker n k ∧ p = .buffer n) ∨ Tagged p)
    (handed' : List (Nat × List UInt8)) : Produced ⟨L.tokens.move p q, handed'⟩ := by
  have hp : (id, p) ∈ L.tokens.arrivals := hqueued.mem_arrivals (hheld ▸ List.mem_cons_self)
  have hkeep : ∀ {x}, x ∈ L.tokens.arrivals → x ∈ (L.tokens.move p q).arrivals :=
    fun hx => Tokens.arrivals_subset_move hx
  intro i r hmem hr
  rcases (Tokens.mem_arrivals_move hheld).mp hmem with hmem | heq
  · obtain ⟨n, k, hw, harrived⟩ := h i r hmem hr
    exact ⟨n, k, hw, hkeep harrived⟩
  · cases heq
    rcases hfrom hr with ⟨n, k, hw, rfl⟩ | htagged
    · exact ⟨n, k, hw, hkeep hp⟩
    · obtain ⟨n, k, hw, harrived⟩ := h id p hp htagged
      exact ⟨n, k, hw, hkeep harrived⟩

theorem produced_hop (hqueued : L.tokens.Queued) (h : Produced L) (hs : Hop L L') : Produced L' := by
  cases hs with
  | stay => exact h
  | capture frame =>
    intro id p hmem hp
    rw [Tokens.arrivals_issue, List.mem_append, List.mem_singleton] at hmem
    rcases hmem with hmem | hmem
    · obtain ⟨n, k, hw, harrived⟩ := h id p hmem hp
      exact ⟨n, k, hw, List.mem_append_left _ harrived⟩
    · cases hmem
      rcases hp with hp | hp | hp | hp | hp <;> cases hp
  | @take m k' id ids target input held goes =>
    refine h.move hqueued held (fun htagged => ?_) _
    rcases goes with rfl | ⟨rfl, -⟩
    · cases m with
      | packetCounter =>
        cases input
        exact .inr (.inl rfl)
      | sender =>
        cases input
        exact .inr (.inr (.inr (.inl rfl)))
      | _ => rcases htagged with hp | hp | hp | hp | hp <;> cases hp
    · rcases htagged with hp | hp | hp | hp | hp <;> cases hp
  | @push m k' id target output held turn goes =>
    refine h.move hqueued held (fun htagged => ?_) _
    rcases goes with rfl | rfl
    · cases m with
      | sniffer =>
        cases List.mem_singleton.mp output
        rcases htagged with hp | hp | hp | hp | hp <;> cases hp
      | tagger1 => exact .inl ⟨_, _, .tagger1, rfl⟩
      | tagger2 => exact .inl ⟨_, _, .tagger2, rfl⟩
      | packetCounter => exact .inr (.inr (.inl rfl))
      | sender => cases output
      | dispatcher =>
        rcases htagged with hp | hp | hp | hp | hp <;> cases hp <;> exact absurd output (by decide)
    · rcases htagged with hp | hp | hp | hp | hp <;> cases hp
  | @send id frame target held goes =>
    exact h.move hqueued held (fun _ => .inr (.inr (.inr (.inr (.inl rfl))))) _

/-- What has been pushed to a tagger stays so while the arrivals grow. -/
theorem pushed_mono {arrivals arrivals' : List (Nat × Place Station Channel)}
    (hsub : arrivals ⊆ arrivals')
    (h : ∃ n k, Worker n k ∧ ((id, .queue k) ∈ arrivals ∨ (id, .dropped k) ∈ arrivals)) :
    ∃ n k, Worker n k ∧ ((id, .queue k) ∈ arrivals' ∨ (id, .dropped k) ∈ arrivals') := by
  obtain ⟨n, k, hw, harrived⟩ := h
  exact ⟨n, k, hw, harrived.imp (fun hx => hsub hx) fun hx => hsub hx⟩

theorem Pushed.elsewhere (h : Pushed L) (hp : p ≠ .buffer .dispatcher) (hq : q ≠ .buffer .dispatcher)
    (handed' : List (Nat × List UInt8)) : Pushed ⟨L.tokens.move p q, handed'⟩ := by
  intro id hid
  rw [popped_move_of_ne hq] at hid
  show id ∈ (L.tokens.move p q).held (.buffer .dispatcher) ∨ _
  rw [Tokens.held_move_of_ne hp.symm hq.symm]
  exact (h id hid).imp_right (pushed_mono Tokens.arrivals_subset_move)

theorem pushed_hop (h : Pushed L) (hs : Hop L L') : Pushed L' := by
  cases hs with
  | stay => exact h
  | capture frame =>
    intro id hid
    rw [popped_issue] at hid
    show id ∈ (L.tokens.issue frame (.buffer .sniffer)).held (.buffer .dispatcher) ∨ _
    rw [Tokens.held_issue_of_ne frame (by decide)]
    exact (h id hid).imp_right (pushed_mono (List.subset_append_left _ _))
  | @take m k' id ids target input held goes =>
    have hne : Place.queue k' ≠ (.buffer .dispatcher : Place Station Channel) := nofun
    by_cases hm : m = .dispatcher
    · subst hm
      obtain rfl := goes.resolve_right fun hgoes => hgoes.2 rfl
      intro i hi
      show i ∈ (L.tokens.move (.queue k') (.buffer .dispatcher)).held (.buffer .dispatcher) ∨ _
      rw [popped_take held, List.mem_append] at hi
      rw [Tokens.held_move_target held hne, List.mem_append]
      rcases hi with hi | hi
      · exact (h i hi).imp .inl (pushed_mono Tokens.arrivals_subset_move)
      · exact .inl (.inr hi)
    · exact h.elsewhere hne (ne_of_take hm goes) _
  | @push m k' id target output held turn goes =>
    have htarget := ne_of_push goes
    by_cases hm : m = .dispatcher
    · subst hm
      intro i hi
      rw [popped_move_of_ne htarget] at hi
      right
      show ∃ n k, Worker n k ∧ ((i, .queue k) ∈ (L.tokens.move (.buffer .dispatcher) target).arrivals ∨
        (i, .dropped k) ∈ (L.tokens.move (.buffer .dispatcher) target).arrivals)
      rw [Tokens.arrivals_move held]
      rcases h i hi with hheld | hpushed
      · rw [held, List.mem_singleton] at hheld
        subst hheld
        have hworker : ∃ n, Worker n k' := by
          cases k' <;> first | exact absurd output (by decide) | exact ⟨_, .tagger1⟩ | exact ⟨_, .tagger2⟩
        obtain ⟨n, hw⟩ := hworker
        refine ⟨n, k', hw, goes.imp ?_ ?_⟩ <;> rintro rfl <;>
          exact List.mem_append_right _ (List.mem_singleton_self _)
      · exact pushed_mono (List.subset_append_left _ _) hpushed
    · exact h.elsewhere (fun heq => hm (Place.buffer.inj heq)) htarget _
  | @send id frame target held goes =>
    exact h.elsewhere (by decide) (ne_of_send goes) _

end

/-! ## Runs -/

section

variable {host : ByteOrder} {ctx : TaggerContext} {tr : List (Event Station Channel)}
  {s : State Station Channel}

theorem order_run (h : (vlanTaggerRuntime host ctx).Run tr s) :
    CaptureOrder (ledger tr) ∧ Dealt (ledger tr) ∧ ∀ n k, Worker n k → Kept n k (ledger tr) := by
  refine hop_invariant (I := fun L => CaptureOrder L ∧ Dealt L ∧ ∀ n k, Worker n k → Kept n k L)
    ⟨List.Sublist.refl _, fun n k _ id p hmem => absurd hmem List.not_mem_nil,
      fun n k _ => List.nil_sublist _⟩ ?_ h
  rintro L L' honce hqueued ⟨horder, hdealt, hkept⟩ hs
  exact ⟨captureOrder_hop horder hs, dealt_hop hqueued hdealt hs,
    fun n k hw => kept_hop honce hqueued horder hdealt hw (hkept n k hw) hs⟩

theorem produced_run (h : (vlanTaggerRuntime host ctx).Run tr s) : Produced (ledger tr) :=
  hop_invariant (fun _ _ hmem => absurd hmem List.not_mem_nil)
    (fun _ _ _ hqueued hi hs => produced_hop hqueued hi hs) h

theorem pushed_run (h : (vlanTaggerRuntime host ctx).Run tr s) : Pushed (ledger tr) :=
  hop_invariant (fun _ hmem => absurd hmem List.not_mem_nil) (fun _ _ _ _ hi hs => pushed_hop hi hs) h

/-- The account has every `pop` of the dispatcher. -/
theorem length_popped (h : (vlanTaggerRuntime host ctx).Run tr s) :
    (ledger tr).popped.length = tr.countP (poppedBy .dispatcher) := by
  refine h.invariant (I := fun tr _ =>
    (ledger tr).popped.length = tr.countP (poppedBy .dispatcher)) (fun _ _ => rfl) ?_
  intro tr s e s' hrun hi hs
  have hagrees := agrees_run (vlanTagger_lane ctx) hrun
  rw [ledger_snoc, List.countP_append, ← hi]
  by_cases htake : ∃ k effect, e = .take .dispatcher k effect
  · obtain ⟨k, effect, rfl⟩ := htake
    cases hs with
    | take rand pc input call =>
      obtain ⟨-, id, ids, hheld, hrecord⟩ := record_take_dispatcher hagrees rand pc input call
      rw [hrecord, popped_take hheld, List.length_append]
      rfl
  · have hno : poppedBy .dispatcher e = false := by
      cases e with
      | take n k effect => exact decide_eq_false fun hn => htake ⟨k, effect, by rw [hn]⟩
      | _ => rfl
    rw [popped_record hagrees hs fun k effect heq => htake ⟨k, effect, heq⟩, List.countP_singleton,
      if_neg (by rw [hno]; decide)]
    rfl

end

/-- The frame has been pushed to the queue `k`, which stored it or not. -/
def PushedTo (tr : List (Event Station Channel)) (id : Nat) (k : Channel) : Prop :=
  (id, .queue k) ∈ (ledger tr).tokens.arrivals ∨ (id, .dropped k) ∈ (ledger tr).tokens.arrivals

/-- The calls of `sendto` for frames that the node `n` has passed on. -/
def handedBy (n : Station) (tr : List (Event Station Channel)) : List (Nat × List UInt8) :=
  (ledger tr).handed.filter fun x => (x.1, .buffer n) ∈ (ledger tr).tokens.arrivals

section

variable {host : ByteOrder} {ctx : TaggerContext} {tr : List (Event Station Channel)}
  {s : State Station Channel}

/-- A frame handed to `sendto` has gone through one of the taggers. -/
theorem worker_of_handed (h : (vlanTaggerRuntime host ctx).Run tr s) {x : Nat × List UInt8}
    (hx : x ∈ (ledger tr).handed) :
    ∃ n k, Worker n k ∧ (x.1, .buffer n) ∈ (ledger tr).tokens.arrivals := by
  have hmem : x.1 ∈ (ledger tr).handed.map Prod.fst := List.mem_map_of_mem hx
  obtain ⟨p, hp, hheld⟩ := ((ledger_handedOnce tr).mem_iff x.1).mp hmem
  exact produced_run h x.1 p ((ledger_queued tr).mem_arrivals hheld) (.inr (.inr (.inr (.inr hp))))

/-- What a tagger has passed on is what has been handed to `sendto` of its share. -/
theorem handedBy_eq (h : (vlanTaggerRuntime host ctx).Run tr s) {n : Station} {k : Channel}
    (hw : Worker n k) :
    handedBy n tr = (ledger tr).handed.filter fun x => x.1 ∈ share k (ledger tr).popped := by
  obtain ⟨horder, hdealt, -⟩ := order_run h
  refine List.filter_congr fun x hx => decide_eq_decide.mpr ⟨fun harrived => ?_, fun hshare => ?_⟩
  · exact hdealt n k hw x.1 _ harrived (.inr (.inr rfl))
  · obtain ⟨n', k', hw', harrived⟩ := worker_of_handed h hx
    have hk := share_disjoint horder.nodup (hdealt n' k' hw' _ _ harrived (.inr (.inr rfl))) hshare
    cases hw <;> cases hw' <;> first | exact harrived | cases hk

/-- Where every captured frame has been handed to `sendto`, the dispatcher has popped them all,
in the order of their capture. -/
theorem popped_of_handed (h : (vlanTaggerRuntime host ctx).Run tr s)
    (hall : ∀ id < (capturedFrames tr).length, id ∈ (ledger tr).handed.map Prod.fst) :
    (ledger tr).popped = List.range (capturedFrames tr).length := by
  obtain ⟨horder, hdealt, -⟩ := order_run h
  have hsub : (ledger tr).popped.Sublist (List.range (capturedFrames tr).length) := by
    rw [← ledger_captured]
    exact (List.sublist_append_left _ _).trans horder
  refine hsub.eq_of_length_le ((List.subperm_of_subset List.nodup_range ?_).length_le)
  intro id hid
  obtain ⟨x, hx, rfl⟩ := List.mem_map.mp (hall id (List.mem_range.mp hid))
  obtain ⟨n, k, hw, harrived⟩ := worker_of_handed h hx
  exact (share_sublist k _).subset (hdealt n k hw x.1 _ harrived (.inr (.inr rfl)))

end

/-- The order of the frames after the run `tr`. -/
structure InOrder (ctx : TaggerContext) (tr : List (Event Station Channel)) : Prop where
  /-- `popped` has an entry for each `pop` of the dispatcher .. -/
  pops : (ledger tr).popped.length = tr.countP (poppedBy .dispatcher)
  /-- .. and is in the order of capture -/
  captured : (ledger tr).popped.Pairwise (· < ·)
  /-- the `i`-th packet is still in the hands of the dispatcher, or went to tagger `i % 2` .. -/
  turns : ∀ i id : Nat, (ledger tr).popped[i]? = some id →
    id ∈ (ledger tr).tokens.held (.buffer .dispatcher) ∨ PushedTo tr id (turn i)
  /-- .. and never to the other one -/
  only : ∀ i id : Nat, (ledger tr).popped[i]? = some id → ∀ n k, Worker n k → PushedTo tr id k → k = turn i
  handed : (ledger tr).handed.map Prod.snd = handedFrames tr
  /-- every frame handed to `sendto` comes from one of the taggers -/
  produced : ∀ x ∈ (ledger tr).handed, ∃! n, (∃ k, Worker n k) ∧ x ∈ handedBy n tr
  /-- what comes from one tagger is the tagged image of a part of its share, in that order -/
  kept : ∀ n k, Worker n k → ∃ ids : List Nat, ids.Sublist (share k (ledger tr).popped) ∧
    ids.Pairwise (· < ·) ∧
    List.Forall₂ (fun id f => ∃ p, (capturedFrames tr)[id]? = some p ∧ tagFrame ctx p = some f)
      ids ((handedBy n tr).map Prod.snd)

/-- Order is kept through each tagger, for every interleaving and with queues full or not. -/
theorem order_kept {host : ByteOrder} {ctx : TaggerContext} {tr : List (Event Station Channel)}
    {s : State Station Channel} (h : (vlanTaggerRuntime host ctx).Run tr s) : InOrder ctx tr := by
  obtain ⟨horder, hdealt, hkept⟩ := order_run h
  have hpushed : ∀ {n k}, Worker n k → ∀ {i id : Nat}, (ledger tr).popped[i]? = some id →
      PushedTo tr id k → k = turn i := by
    intro n k hw i id hi hto
    have hshare : id ∈ share k (ledger tr).popped :=
      hto.elim (fun hq => hdealt n k hw id _ hq (.inl rfl)) fun hd =>
        hdealt n k hw id _ hd (.inr (.inl rfl))
    exact share_disjoint horder.nodup hshare (mem_share.mpr ⟨i, hi, rfl⟩)
  refine ⟨length_popped h, horder.pairwise_lt, fun i id hi => ?_, fun i id hi n k hw hto =>
    hpushed hw hi hto, handed_run (vlanTagger_lane ctx) h, fun x hx => ?_, fun n k hw => ?_⟩
  · refine (pushed_run h id (List.mem_of_getElem? hi)).imp_right fun hto => ?_
    obtain ⟨n, k, hw, hto⟩ := hto
    rw [← hpushed hw hi hto]
    exact hto
  · obtain ⟨n, k, hw, harrived⟩ := worker_of_handed h hx
    refine ⟨n, ⟨⟨k, hw⟩, List.mem_filter.mpr ⟨hx, decide_eq_true harrived⟩⟩, ?_⟩
    rintro n' ⟨⟨k', hw'⟩, hmem'⟩
    have harrived' := of_decide_eq_true (List.mem_filter.mp hmem').2
    have hk := share_disjoint horder.nodup (hdealt n' k' hw' _ _ harrived' (.inr (.inr rfl)))
      (hdealt n k hw _ _ harrived (.inr (.inr rfl)))
    cases hw <;> cases hw' <;> first | rfl | cases hk
  · have hsub : ((handedBy n tr).map Prod.fst).Sublist (share k (ledger tr).popped) := by
      refine List.Sublist.trans ?_ (hkept n k hw)
      have hline : ((ledger tr).handed.map Prod.fst).Sublist ((ledger tr).lineUp n k) :=
        List.sublist_append_left _ _
      have hfilter := hline.filter fun id => decide (id ∈ share k (ledger tr).popped)
      rw [handedBy_eq h hw]
      rwa [List.filter_map] at hfilter
    refine ⟨_, hsub, horder.pairwise_lt.sublist (hsub.trans (share_sublist k _)), ?_⟩
    rw [List.forall₂_map_left_iff, List.forall₂_map_right_iff, List.forall₂_same]
    intro x hx
    obtain ⟨p, hname, htag, -⟩ := (agrees_run (vlanTagger_lane ctx) h).handed x (List.mem_filter.mp hx).1
    exact ⟨p, names_iff.mp hname, htag⟩

/-- Three frames go through the network, the first and the third through one tagger. -/
theorem order_kept_three :
    ∃ tr, InOrder oneRange tr ∧
      handedBy .tagger1 tr = [(0, insertTag (paddedFrame 0) 7), (2, insertTag (paddedFrame 2) 7)] ∧
      handedBy .tagger2 tr = [(1, insertTag (paddedFrame 1) 7)] := by
  obtain ⟨tr, s, hvacant⟩ : ∃ tr s, Vacant .little oneRange
      [paddedFrame 0, paddedFrame 1, paddedFrame 2]
      [(0, insertTag (paddedFrame 0) 7), (1, insertTag (paddedFrame 1) 7),
        (2, insertTag (paddedFrame 2) 7)] tr s := by
    obtain ⟨_, _, h⟩ := (vacant_start .little oneRange).serves (tagFrame_paddedFrame 0) (by decide)
    obtain ⟨_, _, h⟩ := h.serves (tagFrame_paddedFrame 1) (by decide)
    obtain ⟨_, _, h⟩ := h.serves (tagFrame_paddedFrame 2) (by decide)
    exact ⟨_, _, h⟩
  have hrun := hvacant.run.of_restrict
  have hpopped : (ledger tr).popped = List.range 3 := by
    rw [popped_of_handed hrun, hvacant.captured]
    · rfl
    · rw [hvacant.captured, hvacant.handed]
      exact fun id hid => List.mem_range.mpr hid
  refine ⟨_, order_kept hrun, ?_, ?_⟩
  · rw [handedBy_eq hrun .tagger1, hvacant.handed, hpopped]
    rfl
  · rw [handedBy_eq hrun .tagger2, hvacant.handed, hpopped]
    rfl

end VlanTagger.Pipeline
