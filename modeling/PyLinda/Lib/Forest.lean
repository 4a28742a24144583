import PyLinda.Lib.RefGraph

/-!
# Forests

Objects that are referred to once. From some of them one gets to others along references, and to
each of these on one way only.
-/

namespace Lib

section
variable {α : Type}

/-- From the roots `vs` one gets to the objects `ns`, which lists an object as often as there are
ways to it. -/
inductive Forest (refs : α → List α) : List α → List α → Prop
  | nil : Forest refs [] []
  | cons {v vs ns ms} : Forest refs (refs v) ns → Forest refs vs ms →
    Forest refs (v :: vs) (v :: ns ++ ms)

variable {refs refs' : α → List α} {v : α} {vs ws ns ms : List α}

theorem Forest.single (h : Forest refs (refs v) ns) : Forest refs [v] (v :: ns) := by
  have hone := Forest.cons h .nil
  rw [List.append_nil] at hone
  exact hone

theorem Forest.append (hv : Forest refs vs ns) (hw : Forest refs ws ms) :
    Forest refs (vs ++ ws) (ns ++ ms) := by
  induction hv with
  | nil => exact hw
  | cons hk _ _ ih =>
    have h := Forest.cons hk ih
    rw [← List.append_assoc] at h
    exact h

theorem Forest.split (h : Forest refs (vs ++ ws) ns) :
    ∃ n1 n2, ns = n1 ++ n2 ∧ Forest refs vs n1 ∧ Forest refs ws n2 := by
  induction vs generalizing ns with
  | nil => exact ⟨[], ns, rfl, .nil, h⟩
  | cons v vs ih =>
    cases h with
    | @cons _ _ ns ms hk hrest =>
      obtain ⟨n1, n2, rfl, h1, h2⟩ := ih hrest
      exact ⟨v :: ns ++ n1, n2, (List.append_assoc _ _ _).symm, .cons hk h1, h2⟩

/-- What is in the forest of one root. -/
theorem Forest.kids (h : Forest refs [v] ns) : ∃ ms, ns = v :: ms ∧ Forest refs (refs v) ms := by
  cases h with
  | @cons _ _ ms _ hk hrest =>
    cases hrest with
    | nil => exact ⟨ms, List.append_nil _, hk⟩

theorem Forest.roots (h : Forest refs vs ns) (hv : v ∈ vs) : v ∈ ns := by
  induction h with
  | nil => exact hv
  | cons _ _ _ ih =>
    cases List.mem_cons.1 hv with
    | inl hv => exact hv ▸ List.mem_append_left _ List.mem_cons_self
    | inr hv => exact List.mem_append_right _ (ih hv)

theorem Forest.closed (h : Forest refs vs ns) {a b : α} (ha : a ∈ ns) (hb : b ∈ refs a) : b ∈ ns := by
  induction h with
  | nil => exact absurd ha List.not_mem_nil
  | cons hk _ ihk ih =>
    cases List.mem_append.1 ha with
    | inl ha =>
      refine List.mem_append_left _ (List.mem_cons_of_mem _ ?_)
      cases List.mem_cons.1 ha with
      | inl ha => exact hk.roots (ha ▸ hb)
      | inr ha => exact ihk ha
    | inr ha => exact List.mem_append_right _ (ih ha)

theorem Forest.leads (h : Forest refs vs ns) {a : α} (ha : a ∈ ns) : ∃ v ∈ vs, Leads refs v a := by
  induction h with
  | nil => exact absurd ha List.not_mem_nil
  | @cons v _ _ _ _ _ ihk ih =>
    cases List.mem_append.1 ha with
    | inl ha =>
      refine ⟨v, List.mem_cons_self, ?_⟩
      cases List.mem_cons.1 ha with
      | inl ha => exact ha ▸ .refl a
      | inr ha =>
        obtain ⟨w, hw, hl⟩ := ihk ha
        exact hl.head hw
    | inr ha =>
      obtain ⟨w, hw, hl⟩ := ih ha
      exact ⟨w, List.mem_cons_of_mem _ hw, hl⟩

/-- The forest is what the roots lead to. -/
theorem Forest.mem_iff (h : Forest refs vs ns) (a : α) : a ∈ ns ↔ ∃ v ∈ vs, Leads refs v a := by
  constructor
  · exact h.leads
  · intro ⟨v, hv, hl⟩
    induction hl with
    | refl => exact h.roots hv
    | tail _ hb ih => exact h.closed ih hb

/-- References outside of the forest do not matter. -/
theorem Forest.congr (h : Forest refs vs ns) (hsame : ∀ a ∈ ns, refs' a = refs a) :
    Forest refs' vs ns := by
  induction h with
  | nil => exact .nil
  | @cons v _ _ _ _ _ ihk ih =>
    have hv : refs' v = refs v := hsame v (List.mem_append_left _ List.mem_cons_self)
    refine .cons ?_ (ih fun a ha => hsame a (List.mem_append_right _ ha))
    rw [hv]
    exact ihk fun a ha => hsame a (List.mem_append_left _ (List.mem_cons_of_mem _ ha))

theorem Forest.perm (hp : vs.Perm ws) (h : Forest refs vs ns) :
    ∃ ms, ns.Perm ms ∧ Forest refs ws ms := by
  induction hp generalizing ns with
  | nil => exact ⟨ns, .refl ns, h⟩
  | cons v _ ih =>
    cases h with
    | @cons _ _ n1 n2 hk hrest =>
      obtain ⟨m2, hm, hrest'⟩ := ih hrest
      exact ⟨v :: n1 ++ m2, hm.append_left _, .cons hk hrest'⟩
  | swap v w _ =>
    cases h with
    | @cons _ _ n1 _ hk hrest =>
      cases hrest with
      | @cons _ _ n2 n3 hk' hrest' =>
        refine ⟨v :: n2 ++ (w :: n1 ++ n3), ?_, .cons hk' (.cons hk hrest')⟩
        rw [← List.append_assoc, ← List.append_assoc]
        exact List.perm_append_comm.append_right n3
  | trans _ _ ih1 ih2 =>
    obtain ⟨m1, hp1, h1⟩ := ih1 h
    obtain ⟨m2, hp2, h2⟩ := ih2 h1
    exact ⟨m2, hp1.trans hp2, h2⟩

/-- A tree is hung below an object of the forest. -/
theorem Forest.graft {b w : α} (h : Forest refs vs ns) (hnodup : (ns ++ ms).Nodup) (hb : b ∈ ns)
    (hw : Forest refs [w] ms) (hgraft : (refs' b).Perm (w :: refs b))
    (hsame : ∀ a, a ≠ b → refs' a = refs a) :
    ∃ ns', Forest refs' vs ns' ∧ ns'.Perm (ns ++ ms) := by
  have hold : ∀ {us ks}, Forest refs us ks → b ∉ ks → Forest refs' us ks := fun hf hbk =>
    hf.congr fun a ha => hsame a fun hab => hbk (hab ▸ ha)
  induction h with
  | nil => cases hb
  | @cons v vs ns1 ns2 hk hrest ihk ih =>
    obtain ⟨hns, hms, hdisjoint⟩ := List.nodup_append.1 hnodup
    have hbms : b ∉ ms := fun hbm => hdisjoint b hb b hbm rfl
    obtain ⟨hfirst, hsecond, hapart⟩ := List.nodup_append.1 hns
    obtain ⟨hv, hn1⟩ := List.nodup_cons.1 hfirst
    have hshuffle : (v :: ns1 ++ ms ++ ns2).Perm (v :: ns1 ++ ns2 ++ ms) := by
      rw [List.append_assoc, List.append_assoc]
      exact List.perm_append_comm.append_left _
    by_cases hbrest : b ∈ ns2
    · obtain ⟨ns', hf, hp⟩ := ih (List.nodup_append.2 ⟨hsecond, hms, fun a ha c hc =>
        hdisjoint a (List.mem_append_right _ ha) c hc⟩) hbrest
      have hbfirst : b ∉ v :: ns1 := fun hbf => hapart b hbf b hbrest rfl
      have hbv : v ≠ b := fun hvb => hbfirst (hvb ▸ List.mem_cons_self)
      refine ⟨v :: ns1 ++ ns', .cons ?_ hf, ?_⟩
      · rw [hsame v hbv]
        exact hold hk fun hbk => hbfirst (List.mem_cons_of_mem _ hbk)
      · rw [List.append_assoc]
        exact hp.append_left _
    · have hbfirst : b ∈ v :: ns1 := (List.mem_append.1 hb).resolve_right hbrest
      by_cases hvb : v = b
      · subst hvb
        obtain ⟨ks, hperm, hf⟩ := Forest.perm hgraft.symm
          (((hold hw hbms).append (hold hk hv) : Forest refs' ([w] ++ refs v) (ms ++ ns1)))
        refine ⟨v :: ks ++ ns2, .cons hf (hold hrest hbrest), ?_⟩
        refine List.Perm.trans (List.Perm.append_right ns2 (List.Perm.cons v ?_)) hshuffle
        exact hperm.symm.trans List.perm_append_comm
      · have hbk : b ∈ ns1 := (List.mem_cons.1 hbfirst).resolve_left fun hbv => hvb hbv.symm
        obtain ⟨ns', hf, hp⟩ := ihk (List.nodup_append.2 ⟨hn1, hms, fun a ha c hc =>
          hdisjoint a (List.mem_append_left _ (List.mem_cons_of_mem _ ha)) c hc⟩) hbk
        refine ⟨v :: ns' ++ ns2, .cons ?_ (hold hrest hbrest), ?_⟩
        · rw [hsame v hvb]
          exact hf
        · exact List.Perm.trans (List.Perm.append_right ns2 (List.Perm.cons v hp)) hshuffle

/-- An object is a root or is referred to, for each way to it. -/
theorem Forest.count [DecidableEq α] (h : Forest refs vs ns) (a : α) :
    (ns.flatMap refs).count a + vs.count a = ns.count a := by
  induction h with
  | nil => rfl
  | @cons v vs ns ms _ _ ihk ih =>
    rw [List.flatMap_append, List.flatMap_cons, List.count_append, List.count_append,
      List.count_append, List.count_cons, List.count_cons]
    omega

theorem Forest.nodup_roots [DecidableEq α] (h : Forest refs vs ns) (hnodup : ns.Nodup) : vs.Nodup := by
  refine List.nodup_iff_count_le_one.2 fun a => ?_
  have hcount := h.count a
  have hone := List.nodup_iff_count_le_one.1 hnodup a
  omega

end

end Lib
