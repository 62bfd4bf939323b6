import Mathlib.Algebra.Order.Group.Multiset
import Mathlib.Data.Multiset.AddSub

/-!
# Programs that own resources

A program asks for resources (memory, descriptors) and gives them back. Every request may be
refused, as an oracle on the number of the request says. To give back or to use what is not
held is undefined. `Owns owned c post` says of the program `c` that, whatever else is held, it
is defined when it holds `owned`, leaves everything else alone, and holds in the end what
`post` says. Nothing is given back twice, nothing is used behind its return, and what was
forgotten can be read off `post`.
-/
namespace VlanTagger.Lib

/-- A resource: its kind and the number of the request that was granted. -/
structure Handle (κ : Type) where
  kind : κ
  request : Nat
  deriving DecidableEq

/-- The resources of one kind. -/
abbrev HandleOf {κ : Type} (kind : κ) := { h : Handle κ // h.kind = kind }

/-- What a pointer that may be `NULL` points to. -/
def held {κ : Type} {kind : κ} : Option (HandleOf kind) → Multiset (Handle κ)
  | none => 0
  | some h => {h.val}

/-- What is held, and how many requests there have been. Each request gave one resource at most. -/
structure Store (κ : Type) where
  held : Multiset (Handle κ)
  requests : Nat
  request_lt : ∀ h ∈ held, h.request < requests
  nodup : held.Nodup

namespace Store

variable {κ : Type}

/-- A request that gave nothing to hold. -/
def answered (s : Store κ) : Store κ where
  held := s.held
  requests := s.requests + 1
  request_lt := fun h hh => Nat.lt_succ_of_lt (s.request_lt h hh)
  nodup := s.nodup

/-- A request that was granted. -/
def granted (s : Store κ) (kind : κ) : Store κ where
  held := ⟨kind, s.requests⟩ ::ₘ s.held
  requests := s.requests + 1
  request_lt := by
    intro h hh
    rcases Multiset.mem_cons.mp hh with rfl | hh
    · exact Nat.lt_succ_self _
    · exact Nat.lt_succ_of_lt (s.request_lt h hh)
  nodup := Multiset.nodup_cons.mpr ⟨fun h => Nat.lt_irrefl _ (s.request_lt _ h), s.nodup⟩

def without [DecidableEq κ] (s : Store κ) (h : Handle κ) : Store κ where
  held := s.held.erase h
  requests := s.requests
  request_lt := fun h' hh => s.request_lt h' (Multiset.mem_of_mem_erase hh)
  nodup := s.nodup.erase h

/-- Nothing is held. -/
def empty : Store κ where
  held := 0
  requests := 0
  request_lt := fun h hh => absurd hh (Multiset.notMem_zero h)
  nodup := Multiset.nodup_zero

/-- What was given back is not held any more. -/
theorem notMem_without [DecidableEq κ] (s : Store κ) (h : Handle κ) : h ∉ (s.without h).held :=
  fun hh => (Multiset.Nodup.mem_erase_iff s.nodup).mp hh |>.1 rfl

end Store

/-- A program over the resources; `none` when it is undefined. -/
abbrev Program (κ α : Type) := StateT (Store κ) Option α

section

variable {κ α β : Type}

/-- A request for an answer only. -/
def ask (answer : Nat → β) : Program κ β := fun s => some (answer s.requests, s.answered)

/-- A request for a resource. -/
def acquire (grants : Nat → Bool) (kind : κ) : Program κ (Option (HandleOf kind)) := fun s =>
  if grants s.requests then some (some ⟨⟨kind, s.requests⟩, rfl⟩, s.granted kind)
  else some (none, s.answered)

def undefined : Program κ α := fun _ => none

variable [DecidableEq κ]

def access (h : Handle κ) : Program κ Unit := fun s => if h ∈ s.held then some ((), s) else none

def release (h : Handle κ) : Program κ Unit := fun s =>
  if h ∈ s.held then some ((), s.without h) else none

def releaseAll : List (Handle κ) → Program κ Unit
  | [] => pure ()
  | h :: hs => do
    release h
    releaseAll hs

/-- `free`, which does nothing with a `NULL` pointer. -/
def free {kind : κ} : Option (HandleOf kind) → Program κ Unit
  | none => pure ()
  | some h => release h

/-- A pointer is followed, which is undefined for `NULL`. -/
def deref {kind : κ} : Option (HandleOf kind) → Program κ Unit
  | none => undefined
  | some h => access h

end

/-- Holding `owned`, the program is defined, and then holds what `post` says; what else there
is stays as it is. -/
def Owns {κ α : Type} (owned : Multiset (Handle κ)) (c : Program κ α)
    (post : α → Multiset (Handle κ) → Prop) : Prop :=
  ∀ (s : Store κ) (rest : Multiset (Handle κ)), s.held = owned + rest →
    ∃ a s' owned', c s = some (a, s') ∧ s'.held = owned' + rest ∧ post a owned'

namespace Owns

variable {κ α β : Type} {owned more : Multiset (Handle κ)} {c : Program κ α} {f : α → Program κ β}
  {post mid : α → Multiset (Handle κ) → Prop} {last : β → Multiset (Handle κ) → Prop}

theorem pure {a : α} (h : post a owned) : Owns owned (Pure.pure a : Program κ α) post :=
  fun s _ hs => ⟨a, s, owned, rfl, hs, h⟩

theorem mono (h : Owns owned c mid) (himp : ∀ a o, mid a o → post a o) : Owns owned c post := by
  intro s rest hs
  obtain ⟨a, s', o, hc, hs', hmid⟩ := h s rest hs
  exact ⟨a, s', o, hc, hs', himp a o hmid⟩

theorem bind (h : Owns owned c fun a o => Owns o (f a) last) : Owns owned (c >>= f) last := by
  intro s rest hs
  obtain ⟨a, s₁, o, hc, hs₁, hf⟩ := h s rest hs
  obtain ⟨b, s₂, o', hfa, hs₂, hlast⟩ := hf s₁ rest hs₁
  refine ⟨b, s₂, o', ?_, hs₂, hlast⟩
  change (c s).bind (fun p => f p.1 p.2) = some (b, s₂)
  rw [hc]
  exact hfa

/-- What the program does not need it leaves alone. -/
theorem frame (h : Owns owned c post) :
    Owns (owned + more) c fun a o => ∃ o', post a o' ∧ o = o' + more := by
  intro s rest hs
  obtain ⟨a, s', o, hc, hs', hpost⟩ := h s (more + rest) (by rw [hs, add_assoc])
  exact ⟨a, s', o + more, hc, by rw [hs', add_assoc], o, hpost, rfl⟩

/-- A call of a program that needs a part of what is held. -/
theorem call {whole : Multiset (Handle κ)} (h : Owns owned c mid) (split : whole = owned + more)
    (next : ∀ a o, mid a o → post a (o + more)) : Owns whole c post := by
  rw [split]
  apply h.frame.mono
  intro a o ⟨o', hmid, ho⟩
  rw [ho]
  exact next a o' hmid

theorem ask {answer : Nat → α} (h : ∀ a, post a owned) : Owns owned (Lib.ask answer) post :=
  fun s _ hs => ⟨answer s.requests, s.answered, owned, rfl, hs, h _⟩

/-- Both outcomes of a request. -/
theorem acquire {grants : Nat → Bool} {kind : κ} {post : Option (HandleOf kind) → Multiset (Handle κ) → Prop}
    (refused : post none owned)
    (granted : ∀ h : HandleOf kind, post (some h) (h.val ::ₘ owned)) :
    Owns owned (Lib.acquire grants kind) post := by
  intro s rest hs
  by_cases hgrants : grants s.requests = true
  · refine ⟨some ⟨⟨kind, s.requests⟩, rfl⟩, s.granted kind, ⟨kind, s.requests⟩ ::ₘ owned,
      if_pos hgrants, ?_, granted _⟩
    change _ ::ₘ s.held = _
    rw [hs, Multiset.cons_add]
  · exact ⟨none, s.answered, owned, if_neg hgrants, hs, refused⟩

variable [DecidableEq κ] {h : Handle κ} {hs : List (Handle κ)}
  {done : Unit → Multiset (Handle κ) → Prop}

theorem access (hmem : h ∈ owned) (next : done () owned) : Owns owned (Lib.access h) done := by
  intro s rest hs
  have hheld : h ∈ s.held := hs ▸ Multiset.mem_add.mpr (Or.inl hmem)
  exact ⟨(), s, owned, if_pos hheld, hs, next⟩

theorem release (next : done () owned) : Owns (h ::ₘ owned) (Lib.release h) done := by
  intro s rest hs
  have hheld : h ∈ s.held := by
    rw [hs, Multiset.cons_add]
    exact Multiset.mem_cons_self _ _
  refine ⟨(), s.without h, owned, if_pos hheld, ?_, next⟩
  change s.held.erase h = _
  rw [hs, Multiset.cons_add, Multiset.erase_cons_head]

theorem releaseAll (next : done () owned) : Owns ((hs : Multiset (Handle κ)) + owned) (Lib.releaseAll hs) done := by
  induction hs with
  | nil =>
    rw [Multiset.coe_nil, zero_add]
    exact pure next
  | cons h hs ih =>
    rw [← Multiset.cons_coe, Multiset.cons_add]
    exact bind (release ih)

theorem free {kind : κ} {p : Option (HandleOf kind)} (next : done () owned) :
    Owns (held p + owned) (Lib.free p) done := by
  cases p with
  | none =>
    rw [held, zero_add]
    exact pure next
  | some h =>
    rw [held, Multiset.singleton_add]
    exact release next

theorem deref {kind : κ} {p : Option (HandleOf kind)} (hne : p ≠ none) (hmem : held p ≤ owned)
    (next : done () owned) : Owns owned (Lib.deref p) done := by
  cases p with
  | none => exact absurd rfl hne
  | some h => exact access (Multiset.singleton_le.mp hmem) next

end Owns

section

variable {κ α β : Type} {s : Store κ}

theorem release_undefined [DecidableEq κ] {h : Handle κ} (hmem : h ∉ s.held) : release h s = none :=
  if_neg hmem

theorem bind_of_eq {c : Program κ α} {f : α → Program κ β} {a : α} {s' : Store κ} (h : c s = some (a, s')) :
    (c >>= f) s = f a s' := by
  change (c s).bind (fun p => f p.1 p.2) = _
  rw [h]
  rfl

/-- A defined program is defined in both its parts. -/
theorem bind_defined {c : Program κ α} {f : α → Program κ β} {r : β × Store κ} (h : (c >>= f) s = some r) :
    ∃ a s', c s = some (a, s') ∧ f a s' = some r := by
  change (c s).bind (fun p => f p.1 p.2) = some r at h
  obtain ⟨p, hp, hf⟩ := Option.bind_eq_some_iff.mp h
  exact ⟨p.1, p.2, hp, hf⟩

/-- A program that is undefined behind every defined beginning is undefined. -/
theorem bind_undefined {c : Program κ α} {f : α → Program κ β}
    (h : ∀ a s', c s = some (a, s') → f a s' = none) : (c >>= f) s = none := by
  change (c s).bind (fun p => f p.1 p.2) = none
  cases hc : c s with
  | none => rfl
  | some p => exact h p.1 p.2 hc

end

end VlanTagger.Lib
