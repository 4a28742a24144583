import PyLinda.Types.Compare
import PyLinda.Types.FlattenParts

/-!
# When a converter may be believed

`checked` holds the pairs that the comparison is looking at, but also those that it has
refused, and it answers yes for all of them. The answers that do not come from a refused
pair hang together: they are a relation under which the types are isomorphic.
-/

namespace PyLinda.Types

open Lib

/-- The question was answered with a converter. -/
def Said (L : List Asked) (t1 t2 : LindaType) : Prop :=
  ⟨t1, t2, .accepted⟩ ∈ L ∨ ∃ k1 k2, ⟨t1, t2, .table k1 k2⟩ ∈ L

theorem Said.mono {L L' : List Asked} (h : L ⊆ L') {t1 t2 : LindaType} (hs : Said L t1 t2) :
    Said L' t1 t2 := by
  rcases hs with hs | ⟨k1, k2, hs⟩
  · exact Or.inl (h hs)
  · exact Or.inr ⟨k1, k2, h hs⟩

section
variable (c : TypeCache)

/-- Why a pair that was not in the table was accepted. -/
inductive Evidence (L : List Asked) : LindaType → LindaType → Prop
  | builtIn (t1 t2 : LindaType) (id : String) (i1 i2 : Option String) : t1.typeSpec = .id id i1 →
    t2.typeSpec = .id id i2 → id ∈ builtin → Evidence L t1 t2
  | left (t1 t2 nt : LindaType) : denoted c t1 = some nt → Said L nt t2 → Evidence L t1 t2
  | right (t1 t2 nt : LindaType) : denoted c t2 = some nt → Said L t1 nt → Evidence L t1 t2
  | both (t1 t2 nt1 nt2 : LindaType) : denoted c t1 = some nt1 → denoted c t2 = some nt2 →
    Said L nt1 nt2 → Evidence L t1 t2
  | product (t1 t2 : LindaType) (depth : Nat) (l1 l2 : List LindaType) : t1.isProductType →
    t2.isProductType → flattenProductType c depth t1 = .ok l1 →
    flattenProductType c depth t2 = .ok l2 → List.Forall₂ (Said L) l1 l2 → Evidence L t1 t2
  | sum (t1 t2 : LindaType) : t1.isSumType → t2.isSumType → Evidence L t1 t2
  | function (t1 t2 : LindaType) (arg1 result1 arg2 result2 : TypeSpec) :
    t1.typeSpec = .function arg1 result1 → t2.typeSpec = .function arg2 result2 →
    Said L (t1.branch arg1) (t2.branch arg2) → Said L (t2.branch result2) (t1.branch result1) →
    Evidence L t1 t2

/-- What the comparison adds to the table and to the log. -/
structure Answers (s s' : Checked) : Prop where
  log : s.log ⊆ s'.log
  entries : s.entries ⊆ s'.entries
  evidence : ∀ t1 t2, ⟨t1, t2, .accepted⟩ ∈ s'.log →
    ⟨t1, t2, .accepted⟩ ∈ s.log ∨ Evidence c s'.log t1 t2
  settled : ∀ e ∈ s'.entries, e ∈ s.entries ∨ ⟨e.t1, e.t2, .accepted⟩ ∈ s'.log ∨
    ⟨e.t1, e.t2, .refused⟩ ∈ s'.log
  table : ∀ t1 t2 k1 k2, ⟨t1, t2, .table k1 k2⟩ ∈ s'.log →
    ⟨t1, t2, .table k1 k2⟩ ∈ s.log ∨ ∃ e ∈ s'.entries, e.t1 = k1 ∧ e.t2 = k2

end

section
variable {c : TypeCache}

theorem Evidence.mono {L L' : List Asked} (h : L ⊆ L') {t1 t2 : LindaType}
    (he : Evidence c L t1 t2) : Evidence c L' t1 t2 := by
  cases he with
  | builtIn id i1 i2 h1 h2 hb => exact .builtIn _ _ id i1 i2 h1 h2 hb
  | left nt hd hs => exact .left _ _ nt hd (hs.mono h)
  | right nt hd hs => exact .right _ _ nt hd (hs.mono h)
  | both nt1 nt2 hd1 hd2 hs => exact .both _ _ nt1 nt2 hd1 hd2 (hs.mono h)
  | product depth l1 l2 hp1 hp2 h1 h2 hl =>
    exact .product _ _ depth l1 l2 hp1 hp2 h1 h2 (hl.imp fun a b hab => hab.mono h)
  | sum h1 h2 => exact .sum _ _ h1 h2
  | function a1 r1 a2 r2 h1 h2 ha hr => exact .function _ _ a1 r1 a2 r2 h1 h2 (ha.mono h) (hr.mono h)

namespace Answers

theorem refl (s : Checked) : Answers c s s where
  log := List.Subset.refl _
  entries := List.Subset.refl _
  evidence _ _ h := Or.inl h
  settled _ h := Or.inl h
  table _ _ _ _ h := Or.inl h

theorem trans {s s' s'' : Checked} (h : Answers c s s') (h' : Answers c s' s'') :
    Answers c s s'' where
  log := List.Subset.trans h.log h'.log
  entries := List.Subset.trans h.entries h'.entries
  evidence t1 t2 ha := by
    rcases h'.evidence t1 t2 ha with ha | he
    · exact (h.evidence t1 t2 ha).imp id fun he => he.mono h'.log
    · exact Or.inr he
  settled e he := by
    rcases h'.settled e he with he | hs
    · rcases h.settled e he with he | hs | hs
      · exact Or.inl he
      · exact Or.inr (Or.inl (h'.log hs))
      · exact Or.inr (Or.inr (h'.log hs))
    · exact Or.inr hs
  table t1 t2 k1 k2 ht := by
    rcases h'.table t1 t2 k1 k2 ht with ht | he
    · rcases h.table t1 t2 k1 k2 ht with ht | ⟨e, he, hk⟩
      · exact Or.inl ht
      · exact Or.inr ⟨e, h'.entries he, hk⟩
    · exact Or.inr he

/-- Programs are not looked at. -/
theorem append (s : Checked) (code : Nat) (is : List Instr) : Answers c s (s.append code is) where
  log := List.Subset.refl _
  entries := List.Subset.refl _
  evidence _ _ h := Or.inl h
  settled _ h := Or.inl h
  table _ _ _ _ h := Or.inl h

end Answers

/-- The calls inside are as they should be. -/
def AskSound (c : TypeCache)
    (ask : LindaType → LindaType → Checked → Except TypeExc (Option Converter × Checked)) : Prop :=
  ∀ t1 t2 s r s', ask t1 t2 s = .ok (r, s') →
    Answers c s s' ∧ (r.isSome → Said s'.log t1 t2)

section
variable {ask : LindaType → LindaType → Checked → Except TypeExc (Option Converter × Checked)}

theorem unfolded_answers (hask : AskSound c ask) {code : Nat} {t1 t2 : LindaType} {s s' : Checked}
    {b : Bool} (h : unfolded ask code t1 t2 s = .ok (b, s')) :
    Answers c s s' ∧ (b → Said s'.log t1 t2) := by
  unfold unfolded at h
  obtain ⟨⟨f, s₁⟩, hf, h⟩ := ok_of_bind h
  obtain ⟨ha, hs⟩ := hask t1 t2 s f s₁ hf
  cases f with
  | none =>
    cases h
    exact ⟨ha, fun hb => by cases hb⟩
  | some f =>
    obtain ⟨inner, _, h⟩ := ok_of_bind h
    cases h
    exact ⟨ha.trans (.append s₁ _ _), fun _ => hs rfl⟩

theorem compareLeft_answers (hask : AskSound c ask) {code : Nat} {t1 t2 : LindaType}
    {id1 : String} {i1 : Option String} (h1 : t1.typeSpec = .id id1 i1) {s s' : Checked} {b : Bool}
    (h : compareLeft c ask code t2 id1 i1 s = .ok (b, s')) :
    Answers c s s' ∧ (b → Evidence c s'.log t1 t2) := by
  unfold compareLeft at h
  by_cases hb : id1 ∉ builtin
  · rw [if_pos hb] at h
    obtain ⟨nt, hnt, h⟩ := ok_of_bind h
    obtain ⟨ha, hs⟩ := unfolded_answers hask h
    exact ⟨ha, fun hf => .left t1 t2 nt (denoted_of_lookup h1 hb hnt) (hs hf)⟩
  · rw [if_neg hb] at h
    cases h
    exact ⟨.refl s, fun hf => by cases hf⟩

theorem compareRight_answers (hask : AskSound c ask) {code : Nat} {t1 t2 : LindaType}
    {id2 : String} {i2 : Option String} (h2 : t2.typeSpec = .id id2 i2) {s s' : Checked} {b : Bool}
    (h : compareRight c ask code t1 id2 i2 s = .ok (b, s')) :
    Answers c s s' ∧ (b → Evidence c s'.log t1 t2) := by
  unfold compareRight at h
  by_cases hb : id2 ∉ builtin
  · rw [if_pos hb] at h
    obtain ⟨nt, hnt, h⟩ := ok_of_bind h
    obtain ⟨ha, hs⟩ := unfolded_answers hask h
    exact ⟨ha, fun hf => .right t1 t2 nt (denoted_of_lookup h2 hb hnt) (hs hf)⟩
  · rw [if_neg hb] at h
    cases h
    exact ⟨.refl s, fun hf => by cases hf⟩

theorem compareBoth_answers (hask : AskSound c ask) {code : Nat} {t1 t2 : LindaType}
    {id1 id2 : String} {i1 i2 : Option String} (h1 : t1.typeSpec = .id id1 i1)
    (h2 : t2.typeSpec = .id id2 i2) {s s' : Checked} {b : Bool}
    (h : compareBoth c ask code id1 id2 i1 i2 s = .ok (b, s')) :
    Answers c s s' ∧ (b → Evidence c s'.log t1 t2) := by
  unfold compareBoth at h
  by_cases hb : id1 ∉ builtin ∧ id2 ∉ builtin
  · rw [if_pos hb] at h
    obtain ⟨nt1, hnt1, h⟩ := ok_of_bind h
    obtain ⟨nt2, hnt2, h⟩ := ok_of_bind h
    obtain ⟨ha, hs⟩ := unfolded_answers hask h
    exact ⟨ha, fun hf => .both t1 t2 nt1 nt2 (denoted_of_lookup h1 hb.1 hnt1)
      (denoted_of_lookup h2 hb.2 hnt2) (hs hf)⟩
  · rw [if_neg hb] at h
    cases h
    exact ⟨.refl s, fun hf => by cases hf⟩

/-- One of the three pairs was accepted. -/
theorem compareNames_answers (hask : AskSound c ask) {code : Nat} {t1 t2 : LindaType}
    {id1 id2 : String} {i1 i2 : Option String} (h1 : t1.typeSpec = .id id1 i1)
    (h2 : t2.typeSpec = .id id2 i2) {s s' : Checked} {b : Bool}
    (h : compareNames c ask code t1 t2 id1 id2 i1 i2 s = .ok (b, s')) :
    Answers c s s' ∧ (b → Evidence c s'.log t1 t2) := by
  unfold compareNames at h
  obtain ⟨⟨f₁, s₁⟩, hf₁, h⟩ := ok_of_bind h
  have hleft := compareLeft_answers hask h1 hf₁
  cases f₁ with
  | true =>
    cases h
    exact hleft
  | false =>
    obtain ⟨⟨f₂, s₂⟩, hf₂, h⟩ := ok_of_bind h
    have hright := compareRight_answers hask h2 hf₂
    cases f₂ with
    | true =>
      cases h
      exact ⟨hleft.1.trans hright.1, hright.2⟩
    | false =>
      have hboth := compareBoth_answers hask h1 h2 h
      exact ⟨(hleft.1.trans hright.1).trans hboth.1, hboth.2⟩

theorem compareParts_answers (hask : AskSound c ask) (l1 : List LindaType) :
    ∀ l2 s r s', l1.length = l2.length → compareParts ask l1 l2 s = .ok (r, s') →
      Answers c s s' ∧ (r.isSome → List.Forall₂ (Said s'.log) l1 l2) := by
  induction l1 with
  | nil =>
    intro l2 s r s' hl h
    cases l2 with
    | nil =>
      cases h
      exact ⟨.refl s, fun _ => .nil⟩
    | cons e2 l2 => cases hl
  | cons e1 l1 ih =>
    intro l2 s r s' hl h
    cases l2 with
    | nil => cases hl
    | cons e2 l2 =>
      unfold compareParts at h
      obtain ⟨⟨f, s₁⟩, hf, h⟩ := ok_of_bind h
      obtain ⟨ha, hs⟩ := hask e1 e2 s f s₁ hf
      cases f with
      | none =>
        cases h
        exact ⟨ha, fun hr => by cases hr⟩
      | some f =>
        obtain ⟨code, _, h⟩ := ok_of_bind h
        obtain ⟨⟨funcs, s₂⟩, hfs, h⟩ := ok_of_bind h
        cases h
        obtain ⟨ha₂, hs₂⟩ := ih l2 s₁ funcs _ (Nat.succ.inj hl) hfs
        refine ⟨ha.trans ha₂, fun hr => .cons ((hs rfl).mono ha₂.log) (hs₂ ?_)⟩
        cases funcs with
        | none => cases hr
        | some _ => rfl

theorem comparePerm_answers (hask : AskSound c ask) (t1e t2e : List SumPart) (perm : List Nat) :
    ∀ i s r s', comparePerm ask t1e t2e i perm s = .ok (r, s') → Answers c s s' := by
  induction perm with
  | nil =>
    intro i s r s' h
    cases h
    exact .refl s
  | cons p perm ih =>
    intro i s r s' h
    unfold comparePerm at h
    split at h
    · rename_i e1 e2 _ _
      obtain ⟨⟨f, s₁⟩, hf, h⟩ := ok_of_bind h
      obtain ⟨ha, _⟩ := hask _ _ s f s₁ hf
      cases f with
      | none =>
        cases h
        exact ha
      | some f =>
        obtain ⟨code, _, h⟩ := ok_of_bind h
        obtain ⟨⟨funcs, s₂⟩, hfs, h⟩ := ok_of_bind h
        cases h
        exact (ha.trans (.append s₁ _ _)).trans (ih _ _ _ _ hfs)
    · cases h

theorem comparePerms_answers (hask : AskSound c ask) (code : Nat) (t1e t2e : List SumPart)
    (perms : List (List Nat)) :
    ∀ s s', comparePerms ask code t1e t2e perms s = .ok s' → Answers c s s' := by
  induction perms with
  | nil =>
    intro s s' h
    cases h
    exact .refl s
  | cons perm perms ih =>
    intro s s' h
    unfold comparePerms at h
    obtain ⟨⟨funcs, s₁⟩, hf, h⟩ := ok_of_bind h
    have ha := comparePerm_answers hask t1e t2e perm 0 s funcs s₁ hf
    have hrest := ih _ _ h
    split at hrest
    · exact (ha.trans (.append s₁ _ _)).trans hrest
    · exact ha.trans hrest

theorem isProductType_of {t : LindaType} {bs : List TypeSpec} (h : t.typeSpec = .product bs) :
    t.isProductType := by
  unfold LindaType.isProductType
  rw [h]

theorem isSumType_of {t : LindaType} {bs : List TypeSpec} (h : t.typeSpec = .sum bs) :
    t.isSumType := by
  unfold LindaType.isSumType
  rw [h]

/-- A pair that is accepted has been looked at. -/
theorem compareBody_answers (hask : AskSound c ask) {depth code : Nat} {t1 t2 : LindaType}
    {s s' : Checked} {r : Option Converter}
    (h : compareBody c depth ask code t1 t2 s = .ok (r, s')) :
    Answers c s s' ∧ (r.isSome → Evidence c s'.log t1 t2) := by
  unfold compareBody at h
  split at h
  · cases h
    exact ⟨.append s _ _, fun hr => by cases hr⟩
  · rename_i id1 i1 id2 i2 h1 h2
    by_cases hb : id1 ∈ builtin ∧ id2 ∈ builtin
    · rw [if_pos hb] at h
      by_cases he : id1 = id2
      · rw [if_pos he] at h
        cases h
        subst he
        exact ⟨.append s _ _, fun _ => .builtIn t1 t2 id1 i1 i2 h1 h2 hb.1⟩
      · rw [if_neg he] at h
        cases h
        exact ⟨.refl s, fun hr => by cases hr⟩
    · rw [if_neg hb] at h
      obtain ⟨⟨f, s₁⟩, hf, h⟩ := ok_of_bind h
      obtain ⟨ha, hs⟩ := compareNames_answers hask h1 h2 hf
      cases h
      refine ⟨ha, fun hr => hs ?_⟩
      by_cases ht : f = true
      · exact ht
      · rw [if_neg ht] at hr
        cases hr
  · rename_i bs1 bs2 h1 h2
    obtain ⟨l1, hl1, h⟩ := ok_of_bind h
    obtain ⟨l2, hl2, h⟩ := ok_of_bind h
    by_cases hlen : l1.length ≠ l2.length
    · rw [if_pos hlen] at h
      cases h
      exact ⟨.refl s, fun hr => by cases hr⟩
    · rw [if_neg hlen] at h
      obtain ⟨⟨funcs, s₁⟩, hf, h⟩ := ok_of_bind h
      obtain ⟨ha, hs⟩ := compareParts_answers hask l1 l2 s funcs s₁ (not_not.1 hlen) hf
      cases funcs with
      | none =>
        cases h
        exact ⟨ha, fun hr => by cases hr⟩
      | some funcs =>
        cases h
        exact ⟨ha.trans (.append s₁ _ _), fun _ => .product t1 t2 depth l1 l2
          (isProductType_of h1) (isProductType_of h2) hl1 hl2 (hs rfl)⟩
  · rename_i bs1 bs2 h1 h2
    obtain ⟨l1, hl1, h⟩ := ok_of_bind h
    obtain ⟨l2, hl2, h⟩ := ok_of_bind h
    by_cases hlen : l1.length ≠ l2.length
    · rw [if_pos hlen] at h
      cases h
      exact ⟨.refl s, fun hr => by cases hr⟩
    · rw [if_neg hlen] at h
      obtain ⟨s₁, hf, h⟩ := ok_of_bind h
      cases h
      exact ⟨(comparePerms_answers hask code l1 l2 _ s s₁ hf).trans (.append s₁ _ _),
        fun _ => .sum t1 t2 (isSumType_of h1) (isSumType_of h2)⟩
  · cases h
  · rename_i arg1 result1 arg2 result2 h1 h2
    obtain ⟨⟨f, s₁⟩, hf, h⟩ := ok_of_bind h
    obtain ⟨ha, hs⟩ := hask _ _ s f s₁ hf
    cases f with
    | none =>
      cases h
      exact ⟨ha, fun hr => by cases hr⟩
    | some f =>
      obtain ⟨⟨g, s₂⟩, hg, h⟩ := ok_of_bind h
      obtain ⟨ha₂, hs₂⟩ := hask _ _ s₁ g s₂ hg
      cases g with
      | none =>
        cases h
        exact ⟨ha.trans ha₂, fun hr => by cases hr⟩
      | some g =>
        obtain ⟨argCode, _, h⟩ := ok_of_bind h
        obtain ⟨resultCode, _, h⟩ := ok_of_bind h
        cases h
        exact ⟨ha.trans ha₂, fun _ => .function t1 t2 arg1 result1 arg2 result2 h1 h2
          ((hs rfl).mono ha₂.log) (hs₂ rfl)⟩
  · cases h
    exact ⟨.refl s, fun hr => by cases hr⟩

end

/-- A pair that was looked at is settled. -/
theorem answers_note {s s₁ : Checked} {t1 t2 : LindaType} (h : Answers c (s.enter t1 t2) s₁)
    {how : How} (hhow : how = .accepted ∨ how = .refused)
    (hev : how = .accepted → Evidence c s₁.log t1 t2) : Answers c s (s₁.note t1 t2 how) where
  log := List.Subset.trans h.log (List.subset_append_left _ _)
  entries e he := h.entries (List.mem_append_left _ he)
  evidence u1 u2 hu := by
    rcases List.mem_append.1 hu with hu | hu
    · exact (h.evidence u1 u2 hu).imp id fun he => he.mono (List.subset_append_left _ _)
    · obtain he := List.mem_singleton.1 hu
      cases he
      exact Or.inr ((hev rfl).mono (List.subset_append_left _ _))
  settled e he := by
    rcases h.settled e he with he | hs | hs
    · rcases List.mem_append.1 he with he | he
      · exact Or.inl he
      · obtain rfl := List.mem_singleton.1 he
        refine Or.inr ?_
        rcases hhow with rfl | rfl
        · exact Or.inl (List.mem_append_right _ (List.mem_singleton.2 rfl))
        · exact Or.inr (List.mem_append_right _ (List.mem_singleton.2 rfl))
    · exact Or.inr (Or.inl (List.mem_append_left _ hs))
    · exact Or.inr (Or.inr (List.mem_append_left _ hs))
  table u1 u2 k1 k2 hu := by
    rcases List.mem_append.1 hu with hu | hu
    · exact h.table u1 u2 k1 k2 hu
    · obtain he := List.mem_singleton.1 hu
      rcases hhow with rfl | rfl <;> cases he

/-- Every call of the comparison. -/
theorem compareTypes_answers (depth : Nat) : AskSound c (compareTypes c depth) := by
  induction depth with
  | zero =>
    intro t1 t2 s r s' h
    cases h
  | succ depth ih =>
    intro t1 t2 s r s' h
    unfold compareTypes at h
    cases hf : s.find t1 t2 with
    | some e =>
      simp only [hf] at h
      cases h
      have hmem : e ∈ s.entries := List.mem_of_find?_eq_some hf
      refine ⟨⟨List.subset_append_left _ _, List.Subset.refl _, ?_, fun e he => Or.inl he, ?_⟩,
        fun _ => Or.inr ⟨e.t1, e.t2, List.mem_append_right _ (List.mem_singleton.2 rfl)⟩⟩
      · intro u1 u2 hu
        rcases List.mem_append.1 hu with hu | hu
        · exact Or.inl hu
        · cases List.mem_singleton.1 hu
      · intro u1 u2 k1 k2 hu
        rcases List.mem_append.1 hu with hu | hu
        · exact Or.inl hu
        · cases List.mem_singleton.1 hu
          exact Or.inr ⟨e, hmem, rfl, rfl⟩
    | none =>
      simp only [hf] at h
      obtain ⟨⟨f, s₁⟩, hb, h⟩ := ok_of_bind h
      obtain ⟨ha, hev⟩ := compareBody_answers ih hb
      cases h
      cases f with
      | none =>
        exact ⟨answers_note ha (Or.inr rfl) (fun he => by cases he), fun hr => by cases hr⟩
      | some f =>
        exact ⟨answers_note ha (Or.inl rfl) (fun _ => hev rfl),
          fun _ => Or.inl (List.mem_append_right _ (List.mem_singleton.2 rfl))⟩

end

/-! ## The defects, and what holds without them -/

section
variable (c : TypeCache)

/-- The questions of `compare_types(t1, t2)`, in the order in which they were answered. -/
def history (depth : Nat) (t1 t2 : LindaType) : List Asked :=
  match compareTypes c depth t1 t2 .init with
  | .ok (_, s) => s.log
  | .error _ => []

/-- No step of the comparison goes wrong. -/
structure Clean (L : List Asked) : Prop where
  /-- What is found in the table is the pair itself, and it is not refused. -/
  table : ∀ t1 t2 k1 k2, ⟨t1, t2, .table k1 k2⟩ ∈ L →
    k1 = t1 ∧ k2 = t2 ∧ ⟨t1, t2, .refused⟩ ∉ L
  /-- No name stands for itself. -/
  names : ∀ t1 t2, ⟨t1, t2, .accepted⟩ ∈ L → (∃ s1, Unfolds c t1 s1) ∧ ∃ s2, Unfolds c t2 s2
  /-- Products are made of names. -/
  products : ∀ t1 t2, ⟨t1, t2, .accepted⟩ ∈ L → t1.isProductType → t2.isProductType →
    NamedProduct c t1 ∧ NamedProduct c t2
  /-- Sums are accepted when some permutation of the parts was. -/
  sums : ∀ t1 t2, ⟨t1, t2, .accepted⟩ ∈ L → t1.isSumType → t2.isSumType →
    ∃ depth p1 p2 l, flattenSumType c depth t1 = .ok p1 ∧ flattenSumType c depth t2 = .ok p2 ∧
      l.Perm (p2.map Prod.fst) ∧ List.Forall₂ (Said L) (p1.map Prod.fst) l

end

section
variable {c : TypeCache}

theorem denoted_builtin {t : LindaType} {id : String} {i : Option String}
    (h : t.typeSpec = .id id i) (hb : id ∈ builtin) : denoted c t = none := by
  unfold denoted
  rw [h]
  cases i with
  | none => rfl
  | some i => exact if_pos hb

theorem denoted_product {t : LindaType} (h : t.isProductType) : denoted c t = none := by
  unfold LindaType.isProductType at h
  unfold denoted
  split at h
  · rename_i bs hbs
    rw [hbs]
  · cases h

theorem denoted_sum {t : LindaType} (h : t.isSumType) : denoted c t = none := by
  unfold LindaType.isSumType at h
  unfold denoted
  split at h
  · rename_i bs hbs
    rw [hbs]
  · cases h

theorem isBuiltIn_of_builtin {id : String} (h : id ∈ builtin) : isBuiltIn id := by
  have hall : ∀ id ∈ builtin, isBuiltIn id := by decide
  exact hall id h

/-- Accepted one way round or the other. -/
def Accepted (L : List Asked) (t1 t2 : LindaType) : Prop :=
  ⟨t1, t2, .accepted⟩ ∈ L ∨ ⟨t2, t1, .accepted⟩ ∈ L

theorem Accepted.symm {L : List Asked} {t1 t2 : LindaType} (h : Accepted L t1 t2) :
    Accepted L t2 t1 :=
  h.elim Or.inr Or.inl

/-- Every yes is an acceptance: the table holds no pair that is not settled at the end. -/
theorem Said.accepted {s : Checked} (ha : Answers c .init s) (hclean : Clean c s.log)
    {t1 t2 : LindaType} (h : Said s.log t1 t2) : ⟨t1, t2, .accepted⟩ ∈ s.log := by
  rcases h with h | ⟨k1, k2, h⟩
  · exact h
  · obtain ⟨rfl, rfl, hno⟩ := hclean.table t1 t2 k1 k2 h
    rcases ha.table k1 k2 k1 k2 h with hn | ⟨e, he, he1, he2⟩
    · cases hn
    · subst he1 he2
      rcases ha.settled e he with hn | hs | hs
      · cases hn
      · exact hs
      · exact absurd hs hno

/-- Neither type is a user's name, and the types agree. -/
def Settled (c : TypeCache) (L : List Asked) (t1 t2 : LindaType) : Prop :=
  denoted c t1 = none ∧ denoted c t2 = none ∧ Heads c (Accepted L) t1 t2

/-- An accepted pair leads to another one, or agrees. -/
theorem Clean.settle {s : Checked} (ha : Answers c .init s) (hclean : Clean c s.log)
    {t1 t2 : LindaType} (h : ⟨t1, t2, .accepted⟩ ∈ s.log) :
    (∃ nt, denoted c t1 = some nt ∧ ⟨nt, t2, .accepted⟩ ∈ s.log) ∨
      (∃ nt, denoted c t2 = some nt ∧ ⟨t1, nt, .accepted⟩ ∈ s.log) ∨
      (∃ nt1 nt2, denoted c t1 = some nt1 ∧ denoted c t2 = some nt2 ∧
        ⟨nt1, nt2, .accepted⟩ ∈ s.log) ∨
      Settled c s.log t1 t2 := by
  have hsaid : ∀ u1 u2, Said s.log u1 u2 → Accepted s.log u1 u2 :=
    fun u1 u2 hs => Or.inl (hs.accepted ha hclean)
  have hev : Evidence c s.log t1 t2 := by
    rcases ha.evidence t1 t2 h with hn | hev
    · cases hn
    · exact hev
  cases hev with
  | builtIn id i1 i2 h1 h2 hb =>
    exact Or.inr (Or.inr (Or.inr ⟨denoted_builtin h1 hb, denoted_builtin h2 hb,
      .builtIn t1 t2 id i1 i2 h1 h2 (isBuiltIn_of_builtin hb)⟩))
  | left nt hd hs => exact Or.inl ⟨nt, hd, hs.accepted ha hclean⟩
  | right nt hd hs => exact Or.inr (Or.inl ⟨nt, hd, hs.accepted ha hclean⟩)
  | both nt1 nt2 hd1 hd2 hs =>
    exact Or.inr (Or.inr (Or.inl ⟨nt1, nt2, hd1, hd2, hs.accepted ha hclean⟩))
  | product depth l1 l2 hp1 hp2 h1 h2 hl =>
    obtain ⟨hn1, hn2⟩ := hclean.products t1 t2 h hp1 hp2
    exact Or.inr (Or.inr (Or.inr ⟨denoted_product hp1, denoted_product hp2,
      .product t1 t2 l1 l2 (flattenProductType_parts hn1 hp1 h1)
        (flattenProductType_parts hn2 hp2 h2) (hl.imp hsaid)⟩))
  | sum hs1 hs2 =>
    obtain ⟨depth, p1, p2, l, h1, h2, hperm, hl⟩ := hclean.sums t1 t2 h hs1 hs2
    exact Or.inr (Or.inr (Or.inr ⟨denoted_sum hs1, denoted_sum hs2,
      .sum t1 t2 _ _ l (flattenSumType_parts hs1 h1) (flattenSumType_parts hs2 h2) hperm
        (hl.imp hsaid)⟩))
  | function arg1 result1 arg2 result2 h1 h2 harg hres =>
    have hd1 : denoted c t1 = none := by
      unfold denoted
      rw [h1]
    have hd2 : denoted c t2 = none := by
      unfold denoted
      rw [h2]
    exact Or.inr (Or.inr (Or.inr ⟨hd1, hd2, .function t1 t2 arg1 result1 arg2 result2 h1 h2
      (hsaid _ _ harg) (hsaid _ _ hres).symm⟩))

/-- The names in front of an accepted pair are unfolded, and then the types agree. -/
theorem Clean.heads {s : Checked} (ha : Answers c .init s) (hclean : Clean c s.log)
    {t1 s1 : LindaType} (hu1 : Unfolds c t1 s1) :
    ∀ t2 s2, Unfolds c t2 s2 → ⟨t1, t2, .accepted⟩ ∈ s.log →
      Heads c (Accepted s.log) s1 s2 := by
  induction hu1 with
  | done t1 hd1 =>
    intro t2 s2 hu2
    induction hu2 with
    | done t2 hd2 =>
      intro h
      rcases hclean.settle ha h with ⟨nt, hn, _⟩ | ⟨nt, hn, _⟩ | ⟨nt, _, hn, _⟩ | hs
      · rw [hd1] at hn; cases hn
      · rw [hd2] at hn; cases hn
      · rw [hd1] at hn; cases hn
      · exact hs.2.2
    | name t2 nt2 s2 hd2 _ ih =>
      intro h
      rcases hclean.settle ha h with ⟨nt, hn, _⟩ | ⟨nt, hn, ha⟩ | ⟨nt, _, hn, _⟩ | hs
      · rw [hd1] at hn; cases hn
      · rw [hd2] at hn
        cases hn
        exact ih ha
      · rw [hd1] at hn; cases hn
      · rw [hs.2.1] at hd2; cases hd2
  | name t1 nt1 s1 hd1 _ ih1 =>
    intro t2 s2 hu2
    induction hu2 with
    | done t2 hd2 =>
      intro h
      rcases hclean.settle ha h with ⟨nt, hn, ha⟩ | ⟨nt, hn, _⟩ | ⟨_, nt, _, hn, _⟩ | hs
      · rw [hd1] at hn
        cases hn
        exact ih1 t2 t2 (.done t2 hd2) ha
      · rw [hd2] at hn; cases hn
      · rw [hd2] at hn; cases hn
      · rw [hs.1] at hd1; cases hd1
    | name t2 nt2 s2 hd2 hu2 ih2 =>
      intro h
      rcases hclean.settle ha h with ⟨nt, hn, ha⟩ | ⟨nt, hn, ha⟩ | ⟨nt, nt', hn, hn', ha⟩ | hs
      · rw [hd1] at hn
        cases hn
        exact ih1 t2 s2 (.name t2 nt2 s2 hd2 hu2) ha
      · rw [hd2] at hn
        cases hn
        exact ih2 ha
      · rw [hd1] at hn
        rw [hd2] at hn'
        cases hn
        cases hn'
        exact ih1 nt2 s2 hu2 ha
      · rw [hs.1] at hd1; cases hd1

/-- What was accepted is isomorphic. -/
theorem Clean.iso {s : Checked} (ha : Answers c .init s) (hclean : Clean c s.log)
    {t1 t2 : LindaType} (h : ⟨t1, t2, .accepted⟩ ∈ s.log) : Iso c t1 t2 := by
  have hstep : ∀ u1 u2, ⟨u1, u2, .accepted⟩ ∈ s.log → ∃ s1 s2, Unfolds c u1 s1 ∧
      Unfolds c u2 s2 ∧ Heads c (Accepted s.log) s1 s2 := by
    intro u1 u2 hu
    obtain ⟨⟨s1, hs1⟩, s2, hs2⟩ := hclean.names u1 u2 hu
    exact ⟨s1, s2, hs1, hs2, hclean.heads ha hs1 u2 s2 hs2 hu⟩
  refine ⟨Accepted s.log, ?_, Or.inl h⟩
  intro u1 u2 hu
  rcases hu with hu | hu
  · exact hstep u1 u2 hu
  · obtain ⟨s2, s1, hs2, hs1, hh⟩ := hstep u2 u1 hu
    exact ⟨s1, s2, hs1, hs2, hh.symm fun _ _ hr => hr.symm⟩

/-- `A :: int32; T :: A; B :: string; U :: B;`. -/
def aliases : TypeCache
  | "A" => some ⟨"A", .id "int32" (some "int32"), some "A"⟩
  | "T" => some ⟨"T", .id "A" (some "A"), some "T"⟩
  | "B" => some ⟨"B", .id "string" (some "string"), some "B"⟩
  | "U" => some ⟨"U", .id "B" (some "B"), some "U"⟩
  | _ => none

end

end PyLinda.Types
