import PyLinda.Types.AutoEqual

/-!
# When a type is found

A comparison that succeeds leaves only pairs behind that are made of pairs it left behind or
answered out of the memo. So what is found is structurally equal exactly where nothing wrong was
answered from what a failed comparison had left there.
-/

namespace PyLinda.Types.Auto

open Lib

section
variable (g : Registry) (objs : Objects)

/-- It is live, or left there by a comparison that had failed. -/
def Backed (s : State) (p : Pair) : Prop := p ∈ s.live ∨ s.Stale p

/-- The specifications are made alike, of pairs in the set. -/
def StandsOn (B : Pair → Prop) (a : Nat) (t : LindaType) : TypeSpec → TypeSpec → Prop
  | .nil, .nil => True
  | .id n _, .id m i =>
    if n ∈ builtin then n = m
    else m ∉ builtin ∧ ∃ b j u, (objs a).typemap n = some b ∧ i = some j ∧
      g.types.lookup j = some u ∧ B ⟨b, (objs b).typeSpec, u⟩
  | .product branches, .product branches' | .sum branches, .sum branches' =>
    branches.length = branches'.length ∧ ∀ (k : Nat) spec spec', branches[k]? = some spec →
      branches'[k]? = some spec' → B ⟨a, spec, t.branch spec'⟩
  | _, _ => False

def Stands (B : Pair → Prop) (p : Pair) : Prop :=
  (objs p.addr).typeName = p.known.typeName ∧
    StandsOn g objs B p.addr p.known p.typeSpec p.known.typeSpec

/-- What was noted is still noted, and what is new among the live pairs stands. -/
structure Grows (s s' : State) : Prop where
  live : ∀ p ∈ s.live, p ∈ s'.live
  answered : ∀ x ∈ s.answered, x ∈ s'.answered
  stands : ∀ p ∈ s'.live, p ∈ s.live ∨ Stands g objs (Backed s') p

/-- What was answered from failed comparisons meanwhile was right. -/
def NewEqual (s s' : State) : Prop := ∀ p, s'.Stale p → s.Stale p ∨ g.PairEqual objs p

variable {g objs}

theorem StandsOn.mono {B B' : Pair → Prop} (h : ∀ p, B p → B' p) {a : Nat} {t : LindaType}
    {spec spec' : TypeSpec} (hs : StandsOn g objs B a t spec spec') :
    StandsOn g objs B' a t spec spec' := by
  unfold StandsOn at hs ⊢
  split at hs
  · exact trivial
  · rename_i n i m j
    by_cases hn : n ∈ builtin
    · rw [if_pos hn] at hs ⊢
      exact hs
    · rw [if_neg hn] at hs ⊢
      obtain ⟨hm, b, i, u, hb, hi, hu, hB⟩ := hs
      exact ⟨hm, b, i, u, hb, hi, hu, h _ hB⟩
  · exact ⟨hs.1, fun k spec spec' hk hk' => h _ (hs.2 k spec spec' hk hk')⟩
  · exact ⟨hs.1, fun k spec spec' hk hk' => h _ (hs.2 k spec spec' hk hk')⟩
  · exact hs.elim

namespace Grows

theorem same {s s' : State} (hl : s'.live = s.live) (ha : s'.answered = s.answered) :
    Grows g objs s s' where
  live p hp := by rwa [hl]
  answered x hx := by rwa [ha]
  stands p hp := .inl (by rwa [hl] at hp)

theorem backed {s s' : State} (h : Grows g objs s s') {p : Pair} (hp : Backed s p) :
    Backed s' p := by
  rcases hp with hp | ⟨live, hx, hn⟩
  · exact .inl (h.live p hp)
  · exact .inr ⟨live, h.answered _ hx, hn⟩

theorem trans {s₁ s₂ s₃ : State} (h : Grows g objs s₁ s₂) (h' : Grows g objs s₂ s₃) :
    Grows g objs s₁ s₃ where
  live p hp := h'.live p (h.live p hp)
  answered x hx := h'.answered x (h.answered x hx)
  stands p hp := by
    rcases h'.stands p hp with hp | hp
    · rcases h.stands p hp with hp | hp
      · exact .inl hp
      · exact .inr ⟨hp.1, hp.2.mono fun _ => h'.backed⟩
    · exact .inr hp

end Grows

theorem NewEqual.same {s s' : State} (ha : s'.answered = s.answered) : NewEqual g objs s s' := by
  intro p ⟨live, hx, hn⟩
  rw [ha] at hx
  exact .inl ⟨live, hx, hn⟩

theorem NewEqual.trans {s₁ s₂ s₃ : State} (h : NewEqual g objs s₁ s₂)
    (h' : NewEqual g objs s₂ s₃) : NewEqual g objs s₁ s₃ := by
  intro p hp
  rcases h' p hp with hp | hp
  · exact h p hp
  · exact .inr hp

/-! ## What a comparison leaves -/

variable (g objs)

/-- What is known of a comparison that ends. -/
structure Decided (type1 : Part) (type2 : Known) (s : State) (r : Bool) (s' : State) :
    Prop where
  kept : Kept g s'
  failed : r = false → s'.live = s.live ∧ s'.answered = s.answered
  grows : r = true → Grows g objs s s'
  backed : r = true → ∀ t, type2 = .old t → Backed s' ⟨type1.addr, type1.typeSpec, t⟩
  equal : r = true → ∀ t, type2 = .old t →
    g.PairEqual objs ⟨type1.addr, type1.typeSpec, t⟩ → NewEqual g objs s s'

/-- What is known of a type that was found or registered. -/
structure Found (a : Nat) (s : State) (i : String) (s' : State) : Prop where
  kept : Kept g s'
  grows : Grows g objs s s'
  generated : g.types.lookup i = none → Generated g i
  backed : ∀ t, g.types.lookup i = some t → Backed s' ⟨a, (objs a).typeSpec, t⟩
  equal : ∀ t, g.types.lookup i = some t → g.PairEqual objs ⟨a, (objs a).typeSpec, t⟩ →
    NewEqual g objs s s'

/-- The second type is one as they are in the cache. -/
def Fits : Known → Prop
  | .old t => Settled g.generate t.typeSpec
  | .new _ => True

def Decides (eq : Part → Known → Run Bool) : Prop :=
  ∀ type1 type2 s r s', Fits g type2 → Kept g s → eq type1 type2 s = (.ok r, s') →
    Decided g objs type1 type2 s r s'

def Finder (find : Nat → Run String) : Prop :=
  ∀ a s i s', Kept g s → find a s = (.ok i, s') → Found g objs a s i s'

variable {g objs}

theorem fits_of_cache {s : State} (hk : Kept g s) {i : String} {k : Known}
    (h : s.cache i = some k) : Fits g k := by
  cases ht : g.types.lookup i with
  | none =>
    obtain ⟨-, p, rfl⟩ := hk.new i k ht h
    trivial
  | some t =>
    rw [hk.old i t ht] at h
    cases h
    exact g.settled _ (Registry.mem_of_lookup ht)

/-! ## Searching -/

theorem lookupType_inv {i : String} {s s' : State} {k : Known}
    (h : lookupType i s = (.ok k, s')) : s.cache i = some k ∧ s' = s := by
  obtain ⟨hc, rfl⟩ := Prod.mk.inj h
  refine ⟨?_, rfl⟩
  cases hi : s.cache i with
  | none =>
    simp only [hi] at hc
    cases hc
  | some k' =>
    simp only [hi] at hc
    cases hc
    rfl

/-- Where the search finds something, one comparison succeeds, and those before it fail. -/
theorem search_inv {eq : Part → Known → Run Bool} {type : Part} {R : State → State → Prop}
    (hrefl : ∀ s, R s s) (htrans : ∀ a b c, R a b → R b c → R a c)
    (hstep : ∀ k s s', Kept g s → Fits g k → eq type k s = (.ok false, s') →
      Kept g s' ∧ R s s') :
    ∀ {ts : List String} {s s' : State} {found : Option String}, Kept g s →
    search eq type ts s = (.ok found, s') →
    (found = none ∧ Kept g s' ∧ R s s') ∨ ∃ i s₁ k, found = some i ∧ Kept g s₁ ∧ R s s₁ ∧
      s₁.cache i = some k ∧ eq type k s₁ = (.ok true, s') := by
  intro ts
  induction ts with
  | nil =>
    intro s s' found hk h
    cases h
    exact .inl ⟨rfl, hk, hrefl s⟩
  | cons t ts ih =>
    intro s s' found hk h
    rw [search] at h
    obtain ⟨k, s₁, hl, h₁⟩ := Eff.ok_of_andThen h
    obtain ⟨hc, rfl⟩ := lookupType_inv hl
    obtain ⟨r, s₂, he, h₂⟩ := Eff.ok_of_andThen h₁
    cases r with
    | true =>
      cases h₂
      exact .inr ⟨t, s₁, k, rfl, hk, hrefl s₁, hc, he⟩
    | false =>
      obtain ⟨hk₂, hr⟩ := hstep k s₁ s₂ hk (fits_of_cache hk hc) he
      rcases ih hk₂ h₂ with ⟨hf, hk', hr'⟩ | ⟨i, s₃, k', hf, hk₃, hr', hc', he'⟩
      · exact .inl ⟨hf, hk', htrans _ _ _ hr hr'⟩
      · exact .inr ⟨i, s₃, k', hf, hk₃, htrans _ _ _ hr hr', hc', he'⟩

/-- What was found is that of the comparison that succeeded. -/
theorem Found.of_decided {a : Nat} {i : String} {k : Known} {s s' : State} (hk : Kept g s)
    (hc : s.cache i = some k) (h : Decided g objs (root objs a) k s true s') :
    Found g objs a s i s' := by
  have hold : ∀ t, g.types.lookup i = some t → k = .old t := by
    intro t ht
    rw [hk.old i t ht] at hc
    exact (Option.some.inj hc).symm
  exact {
    kept := h.kept
    grows := h.grows rfl
    generated := fun hi => (hk.new i k hi hc).1
    backed := fun t ht => h.backed rfl t (hold t ht)
    equal := fun t ht => h.equal rfl t (hold t ht) }

/-- Comparisons that fail before do not count. -/
theorem Found.after {a : Nat} {i : String} {s s₁ s' : State}
    (hs : s₁.live = s.live ∧ s₁.answered = s.answered) (h : Found g objs a s₁ i s') :
    Found g objs a s i s' where
  kept := h.kept
  grows := (Grows.same hs.1 hs.2).trans h.grows
  generated := h.generated
  backed := h.backed
  equal t ht hp := (NewEqual.same hs.2).trans (h.equal t ht hp)

/-- A type that is registered is not one that was there. -/
theorem Found.of_generated {a : Nat} {i : String} {s s' : State} (hk : Kept g s)
    (hq : Quiet g s s') (hi : Generated g i) : Found g objs a s i s' where
  kept := hq.1 hk
  grows := .same hq.2.1 hq.2.2
  generated _ := hi
  backed t ht := by
    rw [hi.lookup] at ht
    cases ht
  equal t ht := by
    rw [hi.lookup] at ht
    cases ht

theorem findTypeBy_found {order : List String → List String} {eq : Part → Known → Run Bool}
    (heq : Decides g objs eq) (depth : Nat) :
    Finder g objs (findTypeBy objs g.generate order eq depth) := by
  intro a s i s' hk h
  unfold findTypeBy at h
  obtain ⟨ts, s₁, hts, h⟩ := Eff.ok_of_andThen h
  cases hts
  obtain ⟨found, s₂, hs, h⟩ := Eff.ok_of_andThen h
  rcases search_inv (R := fun s s' => s'.live = s.live ∧ s'.answered = s.answered)
    (fun s => ⟨rfl, rfl⟩) (fun a b c h h' => ⟨h'.1.trans h.1, h'.2.trans h.2⟩)
    (fun k s s' hk hf he => ⟨(heq _ k s false s' hf hk he).kept,
      (heq _ k s false s' hf hk he).failed rfl⟩) hk hs with
    ⟨rfl, hk₂, hr⟩ | ⟨j, s₃, k, rfl, hk₃, hr, hc, he⟩
  · obtain ⟨r, s₃, hreg, h⟩ := Eff.ok_of_andThen h
    cases h
    obtain ⟨hq, hi, -⟩ := registerAllTypes_registers objs depth a []
      (fun e he => (List.not_mem_nil he).elim) s₂ r s' hreg
    exact Found.after hr (Found.of_generated hk₂ hq hi)
  · cases h
    exact Found.after hr (Found.of_decided hk₃ hc
      (heq _ k s₃ true s' (fits_of_cache hk₃ hc) hk₃ he))

end

end PyLinda.Types.Auto
