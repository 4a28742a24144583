import PyLinda.Types.ProductExact

/-!
# When flattening a sum returns the leaves

The history is not passed on to the call for a name, so the positions below it are wrong; there
must not be any.
-/

namespace PyLinda.Types

open Lib Relation

section
variable (c : TypeCache)

/-- A sum that comes to no alternative: all it has are sums and names of sums, and so on. -/
inductive Barren : LindaType → Prop
  | intro (t : LindaType) : t.isSumType = true →
    (∀ e ∈ t.items, e.isSumType = true ∨ ∃ nt, denoted c e = some nt ∧ nt.isSumType = true) →
    (∀ q, Opens LindaType.isSumType c t q → Barren q) → Barren t

/-- `q'` is an alternative of `q`, and a sum. -/
def Nested (q q' : LindaType) : Prop := q' ∈ q.items ∧ q'.isSumType = true

/-- The names among the alternatives of `s`, and of the sums nested in it, are registered, and
none of them is that of a sum that has an alternative. -/
def SumsUnnamed (s : LindaType) : Prop :=
  ∀ q, ReflTransGen Nested s q → ∀ e ∈ q.items, e.IsName →
    ∃ nt, denoted c e = some nt ∧ (nt.isSumType = true → Barren c nt)

/-- Flattening the sum returns, at this depth. -/
def ReturnsSum (depth : Nat) (q : LindaType) : Prop :=
  ∃ memo history r, flattenSumMemo c depth q memo history = .ok r

end

section
variable {c : TypeCache}

/-- If a loop comes to an end, so do the calls it makes. -/
theorem flattenSumLoop_calls
    {flatten : LindaType → TypeMemo → List Nat → Except TypeExc (List SumPart × TypeMemo)}
    (history : List Nat) (es : List LindaType) :
    ∀ i memo r, flattenSumLoop c flatten history es i memo = .ok r →
    ∀ e ∈ es, ∀ q, q.isSumType = true → e = q ∨ denoted c e = some q →
      ∃ memo' history' r', flatten q memo' history' = .ok r' := by
  induction es with
  | nil =>
    intro i memo r _ e he
    cases he
  | cons e es ih =>
    intro i memo r h u hu q hq hto
    unfold flattenSumLoop at h
    obtain ⟨⟨l₁, m₁⟩, h₁, h⟩ := ok_of_bind h
    obtain ⟨⟨l₂, m₂⟩, h₂, _⟩ := ok_of_bind h
    rcases List.mem_cons.1 hu with rfl | hu
    · rcases hto with rfl | hd
      · rw [flattenSumItem_nested i memo history hq] at h₁
        exact ⟨memo, _, _, h₁⟩
      · rw [flattenSumItem_opened i memo history hd hq] at h₁
        exact ⟨memo, _, _, h₁⟩
    · exact ih (i + 1) m₁ _ h₂ u hu q hq hto

theorem ReturnsSum.falls (depth : Nat) (q q' : LindaType) (h : ReturnsSum c depth q)
    (ho : Opens LindaType.isSumType c q q') : ∃ d < depth, ReturnsSum c d q' := by
  obtain ⟨memo, history, r, h⟩ := h
  obtain ⟨hk, e, he, hto⟩ := ho
  cases depth with
  | zero => cases h
  | succ depth =>
    exact ⟨depth, by omega, flattenSumLoop_calls history q.items 0 _ r h e he q' hk hto⟩

theorem ReturnsSum.acyclic {depth : Nat} {q : LindaType} (h : ReturnsSum c depth q) :
    ¬ TransGen (Opens LindaType.isSumType c) q q :=
  not_cycle_of_falls ReturnsSum.falls depth q h

/-! ## The positions are never too long -/

/-- The positions that the code found below `history` go no further than those below
`history'`, one for one. -/
def NoLonger (history history' : List Nat) : List SumPart → List SumPart → Prop :=
  List.Forall₂ fun a b => a.2.length + history'.length ≤ b.2.length + history.length

theorem NoLonger.append {history history' : List Nat} {l₁ l₁' l₂ l₂' : List SumPart}
    (h₁ : NoLonger history history' l₁ l₁') (h₂ : NoLonger history history' l₂ l₂') :
    NoLonger history history' (l₁ ++ l₂) (l₁' ++ l₂') :=
  List.rel_append h₁ h₂

/-- One step further on both sides. -/
theorem NoLonger.snoc {history history' : List Nat} {i j : Nat} {l l' : List SumPart}
    (h : NoLonger (history ++ [i]) (history' ++ [j]) l l') : NoLonger history history' l l' := by
  refine h.imp fun a b hab => ?_
  rw [List.length_append, List.length_append] at hab
  show _ ≤ _
  have : [i].length = [j].length := rfl
  omega

/-- A history that was dropped. -/
theorem NoLonger.dropped {history history' : List Nat} {i : Nat} {l l' : List SumPart}
    (h : NoLonger [] (history' ++ [i]) l l') : NoLonger history history' l l' := by
  refine h.imp fun a b hab => ?_
  rw [List.length_append, List.length_nil] at hab
  show _ ≤ _
  omega

theorem NoLonger.single (history history' : List Nat) (i : Nat) (e : LindaType) :
    NoLonger history history' [(e, history ++ [i])] [(e, history' ++ [i])] := by
  refine .cons ?_ .nil
  show (history ++ [i]).length + _ ≤ (history' ++ [i]).length + _
  rw [List.length_append, List.length_append]
  omega

/-- Below a name the positions are too short, so they are right only where there are none. -/
theorem NoLonger.eq_nil {history : List Nat} {i : Nat} {l : List SumPart}
    (h : NoLonger [] (history ++ [i]) l l) : l = [] := by
  cases l with
  | nil => rfl
  | cons a l =>
    cases h with
    | cons ha _ =>
      rw [List.length_append, List.length_nil] at ha
      have : [i].length = 1 := rfl
      omega

section
variable {q : LindaType} {depth : Nat}

theorem flattenSumLoop_noLonger
    (hrec : ∀ q' memo h h' l m path l', flattenSumMemo c depth q' memo h = .ok (l, m) →
      Leaves LindaType.isSumType c path h' 0 q'.items l' →
      Leads LindaType.isSumType c path q' → NoLonger h h' l l')
    (es : List LindaType) : (∀ e ∈ es, e ∈ q.items) →
    ∀ i memo h h' l m path l',
      flattenSumLoop c (flattenSumMemo c depth) h es i memo = .ok (l, m) →
      Leaves LindaType.isSumType c path h' i es l' →
      Leads LindaType.isSumType c path q → NoLonger h h' l l' := by
  induction es with
  | nil =>
    intro _ i memo h h' l m path l' hr hl _
    cases hr
    cases hl
    exact .nil
  | cons e es ih =>
    intro hes i memo h h' l m path l' hr hl hpath
    have hitem : e ∈ q.items := hes e List.mem_cons_self
    have hes' : ∀ u ∈ es, u ∈ q.items := fun u hu => hes u (List.mem_cons_of_mem _ hu)
    unfold flattenSumLoop at hr
    obtain ⟨⟨l₁, m₁⟩, h₁, hr⟩ := ok_of_bind hr
    obtain ⟨⟨l₂, m₂⟩, h₂, hr⟩ := ok_of_bind hr
    cases hr
    cases hl with
    | nested _ _ _ _ _ k k' hk hk₁ hk₂ =>
      rw [flattenSumItem_nested i memo h hk] at h₁
      have ho : Opens LindaType.isSumType c q e := ⟨hk, e, hitem, Or.inl rfl⟩
      have hseg := hrec e memo _ _ _ _ path k h₁ hk₁ (hpath.step ho)
      exact hseg.snoc.append (ih hes' (i + 1) m₁ h h' l₂ _ path k' h₂ hk₂ hpath)
    | opened _ _ _ _ nt _ k k' hd hk _ hk₁ hk₂ =>
      rw [flattenSumItem_opened i memo h hd hk] at h₁
      have ho : Opens LindaType.isSumType c q nt := ⟨hk, e, hitem, Or.inr hd⟩
      have hseg := hrec nt memo _ _ _ _ _ k h₁ hk₁ (hpath.push ho)
      exact hseg.dropped.append (ih hes' (i + 1) m₁ h h' l₂ _ path k' h₂ hk₂ hpath)
    | named _ _ _ _ nt _ k' hd hcut hk₂ =>
      cases hk : nt.isSumType with
      | true =>
        -- the type is being taken apart, and the code takes it apart again
        rw [flattenSumItem_opened i memo h hd hk] at h₁
        have hac := ReturnsSum.acyclic ⟨memo, [], _, h₁⟩
        exact absurd (hcut hk) (hpath.not_mem ⟨hk, e, hitem, Or.inr hd⟩ hac)
      | false =>
        rw [flattenSumItem_named i memo h hd hk] at h₁
        cases h₁
        exact (NoLonger.single h h' i nt).append
          (ih hes' (i + 1) _ h h' l₂ _ path k' h₂ hk₂ hpath)
    | leaf _ _ _ _ _ k' hk hn hk₂ =>
      rw [flattenSumItem_leaf i memo h hk hn] at h₁
      cases h₁
      exact (NoLonger.single h h' i e).append
        (ih hes' (i + 1) _ h h' l₂ _ path k' h₂ hk₂ hpath)

end

theorem flattenSumMemo_noLonger (depth : Nat) : ∀ q memo h h' l m path l',
    flattenSumMemo c depth q memo h = .ok (l, m) →
    Leaves LindaType.isSumType c path h' 0 q.items l' →
    Leads LindaType.isSumType c path q → NoLonger h h' l l' := by
  induction depth with
  | zero =>
    intro q memo h h' l m path l' hr
    cases hr
  | succ depth ih =>
    intro q memo h h' l m path l' hr hl hpath
    exact flattenSumLoop_noLonger ih q.items (fun _ he => he) 0 _ h h' l m path l' hr hl hpath

/-! ## Sums without leaves -/

/-- Items that come to no leaf. -/
def NoLeaf (c : TypeCache) (es : List LindaType) : Prop :=
  ∀ e ∈ es, (e.isSumType = true ∧ Barren c e) ∨
    ∃ nt, denoted c e = some nt ∧ nt.isSumType = true ∧ Barren c nt

theorem NoLeaf.barren {t : LindaType} (ht : t.isSumType = true) (h : NoLeaf c t.items) :
    Barren c t := by
  refine .intro t ht (fun e he => ?_) ?_
  · rcases h e he with ⟨hs, _⟩ | ⟨nt, hd, hs, _⟩
    · exact Or.inl hs
    · exact Or.inr ⟨nt, hd, hs⟩
  · rintro q ⟨hq, e, he, rfl | hd⟩
    · rcases h e he with ⟨_, hb⟩ | ⟨nt, hd, _⟩
      · exact hb
      · exact absurd (isName_of_denoted hd) (not_isName_of_sum hq)
    · rcases h e he with ⟨hs, _⟩ | ⟨nt, hd', _, hb⟩
      · exact absurd (isName_of_denoted hd) (not_isName_of_sum hs)
      · cases hd.symm.trans hd'
        exact hb

theorem Leaves.noLeaf {path : List LindaType} {history : List Nat} {i : Nat}
    {es : List LindaType} {l : List SumPart}
    (h : Leaves LindaType.isSumType c path history i es l) : l = [] → NoLeaf c es := by
  induction h with
  | nil =>
    intro _ e he
    cases he
  | nested path history i e es l l' hk _ _ ih ih' =>
    intro hl u hu
    obtain ⟨hl, hl'⟩ := List.append_eq_nil_iff.1 hl
    rcases List.mem_cons.1 hu with rfl | hu
    · exact Or.inl ⟨hk, (ih hl).barren hk⟩
    · exact ih' hl' u hu
  | opened path history i e nt es l l' hd hk _ _ _ ih ih' =>
    intro hl u hu
    obtain ⟨hl, hl'⟩ := List.append_eq_nil_iff.1 hl
    rcases List.mem_cons.1 hu with rfl | hu
    · exact Or.inr ⟨nt, hd, hk, (ih hl).barren hk⟩
    · exact ih' hl' u hu
  | named => exact fun hl => by cases hl
  | leaf => exact fun hl => by cases hl

/-- The call returns `l`, whatever the memo, if it may go deep enough. -/
def SumReturns (c : TypeCache) (q : LindaType) (history : List Nat) (l : List SumPart) : Prop :=
  ∃ depth, ∀ d, depth ≤ d → ∀ memo, ∃ m, flattenSumMemo c d q memo history = .ok (l, m)

def SumLoopReturns (c : TypeCache) (history : List Nat) (i : Nat) (es : List LindaType)
    (l : List SumPart) : Prop :=
  ∃ depth, ∀ d, depth ≤ d → ∀ memo, ∃ m,
    flattenSumLoop c (flattenSumMemo c d) history es i memo = .ok (l, m)

theorem SumLoopReturns.nil (history : List Nat) (i : Nat) : SumLoopReturns c history i [] [] :=
  ⟨0, fun _ _ memo => ⟨memo, rfl⟩⟩

/-- A round that ends well, and the rest of the loop. -/
theorem SumLoopReturns.cons {history : List Nat} {i : Nat} {e : LindaType} {es : List LindaType}
    {l l' : List SumPart}
    (h : ∃ depth, ∀ d, depth ≤ d → ∀ memo, ∃ m,
      flattenSumItem c (flattenSumMemo c d) e i memo history = .ok (l, m))
    (h' : SumLoopReturns c history (i + 1) es l') :
    SumLoopReturns c history i (e :: es) (l ++ l') := by
  obtain ⟨d₁, h₁⟩ := h
  obtain ⟨d₂, h₂⟩ := h'
  refine ⟨max d₁ d₂, fun d hd memo => ?_⟩
  obtain ⟨m₁, h₁⟩ := h₁ d (by omega) memo
  obtain ⟨m₂, h₂⟩ := h₂ d (by omega) m₁
  unfold flattenSumLoop
  rw [bind_ok h₁]
  show ∃ m, (flattenSumLoop c (flattenSumMemo c d) history es (i + 1) m₁ >>= _) = _
  rw [bind_ok h₂]
  exact ⟨m₂, rfl⟩

theorem SumLoopReturns.call {q : LindaType} {history : List Nat} {l : List SumPart}
    (h : SumLoopReturns c history 0 q.items l) : SumReturns c q history l := by
  obtain ⟨depth, h⟩ := h
  refine ⟨depth + 1, fun d hd memo => ?_⟩
  obtain ⟨d, rfl⟩ : ∃ k, d = k + 1 := ⟨d - 1, by omega⟩
  exact h d (by omega) (memo.mark q)

theorem SumReturns.acyclic {q : LindaType} {history : List Nat} {l : List SumPart}
    (h : SumReturns c q history l) : ¬ TransGen (Opens LindaType.isSumType c) q q := by
  obtain ⟨depth, h⟩ := h
  obtain ⟨m, hm⟩ := h depth (Nat.le_refl _) []
  exact ReturnsSum.acyclic ⟨[], history, _, hm⟩

/-- A round for a sum without leaves. -/
theorem SumLoopReturns.nested {e : LindaType} {es : List LindaType} {history : List Nat} {i : Nat}
    {l l' : List SumPart} (hk : e.isSumType = true) (h : SumReturns c e (history ++ [i]) l)
    (h' : SumLoopReturns c history (i + 1) es l') :
    SumLoopReturns c history i (e :: es) (l ++ l') := by
  obtain ⟨depth, h⟩ := h
  refine .cons ⟨depth, fun d hd memo => ?_⟩ h'
  rw [flattenSumItem_nested i memo history hk]
  exact h d hd memo

theorem SumLoopReturns.opened {e nt : LindaType} {es : List LindaType} {history : List Nat}
    {i : Nat} {l l' : List SumPart} (hd : denoted c e = some nt) (hk : nt.isSumType = true)
    (h : SumReturns c nt [] l) (h' : SumLoopReturns c history (i + 1) es l') :
    SumLoopReturns c history i (e :: es) (l ++ l') := by
  obtain ⟨depth, h⟩ := h
  refine .cons ⟨depth, fun d hle memo => ?_⟩ h'
  rw [flattenSumItem_opened i memo history hd hk]
  exact h d hle memo

/-- A sum without leaves flattens to nothing, and it has no leaves. -/
theorem Barren.flattens {t : LindaType} (h : Barren c t) :
    (∀ history, SumReturns c t history []) ∧ ∀ path history,
      Leads LindaType.isSumType c path t →
        Leaves LindaType.isSumType c path history 0 t.items [] := by
  induction h with
  | intro t _ halt _ ih =>
    have hret : ∀ history (es : List LindaType), (∀ e ∈ es, e ∈ t.items) → ∀ i,
        SumLoopReturns c history i es [] := by
      intro history es
      induction es with
      | nil => exact fun _ i => .nil history i
      | cons e es ihes =>
        intro hes i
        have hrest := ihes (fun u hu => hes u (List.mem_cons_of_mem _ hu)) (i + 1)
        have he : e ∈ t.items := hes e List.mem_cons_self
        rcases halt e he with hs | ⟨nt, hd, hs⟩
        · exact .nested hs ((ih e ⟨hs, e, he, Or.inl rfl⟩).1 _) hrest
        · exact .opened hd hs ((ih nt ⟨hs, e, he, Or.inr hd⟩).1 _) hrest
    have hlv : ∀ path history, Leads LindaType.isSumType c path t → ∀ es : List LindaType,
        (∀ e ∈ es, e ∈ t.items) → ∀ i, Leaves LindaType.isSumType c path history i es [] := by
      intro path history hpath es
      induction es with
      | nil => exact fun _ i => .nil path history i
      | cons e es ihes =>
        intro hes i
        have hrest := ihes (fun u hu => hes u (List.mem_cons_of_mem _ hu)) (i + 1)
        have he : e ∈ t.items := hes e List.mem_cons_self
        rcases halt e he with hs | ⟨nt, hd, hs⟩
        · have ho : Opens LindaType.isSumType c t e := ⟨hs, e, he, Or.inl rfl⟩
          exact .nested path history i e es [] [] hs ((ih e ho).2 path _ (hpath.step ho)) hrest
        · have ho : Opens LindaType.isSumType c t nt := ⟨hs, e, he, Or.inr hd⟩
          exact .opened path history i e nt es [] [] hd hs
            (hpath.not_mem ho ((ih nt ho).1 []).acyclic) ((ih nt ho).2 _ _ (hpath.push ho)) hrest
    exact ⟨fun history => (hret history t.items (fun _ he => he) 0).call,
      fun path history hpath => hlv path history hpath t.items (fun _ he => he) 0⟩

/-! ## When the two agree -/

/-- What the names among some items have to be. -/
def NamesFit (c : TypeCache) (es : List LindaType) : Prop :=
  ∀ e ∈ es, e.IsName → ∃ nt, denoted c e = some nt ∧ (nt.isSumType = true → Barren c nt)

theorem NamesFit.cons {e : LindaType} {es : List LindaType}
    (h : e.IsName → ∃ nt, denoted c e = some nt ∧ (nt.isSumType = true → Barren c nt))
    (hes : NamesFit c es) : NamesFit c (e :: es) := by
  intro u hu hn
  rcases List.mem_cons.1 hu with rfl | hu
  · exact h hn
  · exact hes u hu hn

section
variable {q : LindaType} {depth : Nat}

theorem flattenSumLoop_fits
    (hrec : ∀ q' memo h l m path l', flattenSumMemo c depth q' memo h = .ok (l, m) →
      Leaves LindaType.isSumType c path h 0 q'.items l' →
      Leads LindaType.isSumType c path q' → l = l' → SumsUnnamed c q')
    (es : List LindaType) : (∀ e ∈ es, e ∈ q.items) →
    ∀ i memo h l m path l',
      flattenSumLoop c (flattenSumMemo c depth) h es i memo = .ok (l, m) →
      Leaves LindaType.isSumType c path h i es l' →
      Leads LindaType.isSumType c path q → l = l' →
      NamesFit c es ∧ ∀ e ∈ es, e.isSumType = true → SumsUnnamed c e := by
  induction es with
  | nil =>
    intro _ i memo h l m path l' _ _ _ _
    exact ⟨fun e he => absurd he List.not_mem_nil, fun e he => absurd he List.not_mem_nil⟩
  | cons e es ih =>
    intro hes i memo h l m path l' hr hl hpath heq
    have hitem : e ∈ q.items := hes e List.mem_cons_self
    have hes' : ∀ u ∈ es, u ∈ q.items := fun u hu => hes u (List.mem_cons_of_mem _ hu)
    unfold flattenSumLoop at hr
    obtain ⟨⟨l₁, m₁⟩, h₁, hr⟩ := ok_of_bind hr
    obtain ⟨⟨l₂, m₂⟩, h₂, hr⟩ := ok_of_bind hr
    cases hr
    cases hl with
    | nested _ _ _ _ _ k k' hk hk₁ hk₂ =>
      rw [flattenSumItem_nested i memo h hk] at h₁
      have ho : Opens LindaType.isSumType c q e := ⟨hk, e, hitem, Or.inl rfl⟩
      have hseg := flattenSumMemo_noLonger depth e memo _ _ _ _ path k h₁ hk₁ (hpath.step ho)
      obtain ⟨heq₁, heq₂⟩ := List.append_inj heq hseg.length_eq
      obtain ⟨hfit, hsub⟩ := ih hes' (i + 1) m₁ h l₂ _ path k' h₂ hk₂ hpath heq₂
      refine ⟨hfit.cons fun hn => absurd hn (not_isName_of_sum hk), fun u hu hus => ?_⟩
      rcases List.mem_cons.1 hu with rfl | hu
      · exact hrec u memo _ _ _ path k h₁ hk₁ (hpath.step ho) heq₁
      · exact hsub u hu hus
    | opened _ _ _ _ nt _ k k' hd hk _ hk₁ hk₂ =>
      rw [flattenSumItem_opened i memo h hd hk] at h₁
      have ho : Opens LindaType.isSumType c q nt := ⟨hk, e, hitem, Or.inr hd⟩
      have hseg := flattenSumMemo_noLonger depth nt memo _ _ _ _ _ k h₁ hk₁ (hpath.push ho)
      obtain ⟨heq₁, heq₂⟩ := List.append_inj heq hseg.length_eq
      obtain ⟨hfit, hsub⟩ := ih hes' (i + 1) m₁ h l₂ _ path k' h₂ hk₂ hpath heq₂
      subst heq₁
      have hbarren : Barren c nt := (hk₁.noLeaf hseg.eq_nil).barren hk
      refine ⟨hfit.cons fun _ => ⟨nt, hd, fun _ => hbarren⟩, fun u hu hus => ?_⟩
      rcases List.mem_cons.1 hu with rfl | hu
      · exact absurd (isName_of_denoted hd) (not_isName_of_sum hus)
      · exact hsub u hu hus
    | named _ _ _ _ nt _ k' hd hcut hk₂ =>
      cases hk : nt.isSumType with
      | true =>
        rw [flattenSumItem_opened i memo h hd hk] at h₁
        have hac := ReturnsSum.acyclic ⟨memo, [], _, h₁⟩
        exact absurd (hcut hk) (hpath.not_mem ⟨hk, e, hitem, Or.inr hd⟩ hac)
      | false =>
        rw [flattenSumItem_named i memo h hd hk] at h₁
        cases h₁
        obtain ⟨hfit, hsub⟩ :=
          ih hes' (i + 1) _ h l₂ _ path k' h₂ hk₂ hpath (List.cons.inj heq).2
        refine ⟨hfit.cons fun _ => ⟨nt, hd, fun hs => ?_⟩, fun u hu hus => ?_⟩
        · rw [hk] at hs
          cases hs
        · rcases List.mem_cons.1 hu with rfl | hu
          · exact absurd (isName_of_denoted hd) (not_isName_of_sum hus)
          · exact hsub u hu hus
    | leaf _ _ _ _ _ k' hk hn hk₂ =>
      rw [flattenSumItem_leaf i memo h hk hn] at h₁
      cases h₁
      obtain ⟨hfit, hsub⟩ := ih hes' (i + 1) _ h l₂ _ path k' h₂ hk₂ hpath (List.cons.inj heq).2
      refine ⟨hfit.cons fun hn' => absurd hn' hn, fun u hu hus => ?_⟩
      rcases List.mem_cons.1 hu with rfl | hu
      · rw [hk] at hus
        cases hus
      · exact hsub u hu hus

end

theorem flattenSumMemo_fits (depth : Nat) : ∀ q memo h l m path l',
    flattenSumMemo c depth q memo h = .ok (l, m) →
    Leaves LindaType.isSumType c path h 0 q.items l' →
    Leads LindaType.isSumType c path q → l = l' → SumsUnnamed c q := by
  induction depth with
  | zero =>
    intro q memo h l m path l' hr
    cases hr
  | succ depth ih =>
    intro q memo h l m path l' hr hl hpath heq
    obtain ⟨hfit, hsub⟩ := flattenSumLoop_fits ih q.items (fun _ he => he) 0 _ h l m path l' hr hl
      hpath heq
    intro q' hq'
    rcases ReflTransGen.cases_head hq' with rfl | ⟨u, ⟨hu, hus⟩, hq'⟩
    · exact hfit
    · exact hsub u hu hus q' hq'

theorem SumsUnnamed.step {q q' : LindaType} (h : SumsUnnamed c q) (hn : Nested q q') :
    SumsUnnamed c q' :=
  fun v hv => h v (hv.head hn)

/-- An item is smaller than the whole. -/
theorem sizeOf_item {q e : LindaType} (h : e ∈ q.items) :
    sizeOf e.typeSpec < sizeOf q.typeSpec := by
  unfold LindaType.items at h
  split at h
  · rename_i bs hbs
    obtain ⟨b, hb, rfl⟩ := List.mem_map.1 h
    have hlt := List.sizeOf_lt_of_mem hb
    rw [hbs, TypeSpec.product.sizeOf_spec]
    show sizeOf b < 1 + sizeOf bs
    omega
  · rename_i bs hbs
    obtain ⟨b, hb, rfl⟩ := List.mem_map.1 h
    have hlt := List.sizeOf_lt_of_mem hb
    rw [hbs, TypeSpec.sum.sizeOf_spec]
    show sizeOf b < 1 + sizeOf bs
    omega
  · cases h

theorem SumsUnnamed.returns (n : Nat) : ∀ q, sizeOf q.typeSpec < n → SumsUnnamed c q →
    ∀ path history, Leads LindaType.isSumType c path q →
      ∃ l, Leaves LindaType.isSumType c path history 0 q.items l ∧ SumReturns c q history l := by
  induction n with
  | zero => exact fun q hq => absurd hq (Nat.not_lt_zero _)
  | succ n ihn =>
    intro q hsize h path history hpath
    have hloop : ∀ es : List LindaType, (∀ e ∈ es, e ∈ q.items) → ∀ i,
        ∃ l, Leaves LindaType.isSumType c path history i es l ∧
          SumLoopReturns c history i es l := by
      intro es
      induction es with
      | nil => exact fun _ i => ⟨[], .nil path history i, .nil history i⟩
      | cons e es ih =>
        intro hes i
        have he : e ∈ q.items := hes e List.mem_cons_self
        obtain ⟨l', hl', hret'⟩ := ih (fun u hu => hes u (List.mem_cons_of_mem _ hu)) (i + 1)
        by_cases hk : e.isSumType = true
        · have ho : Opens LindaType.isSumType c q e := ⟨hk, e, he, Or.inl rfl⟩
          have hlt := sizeOf_item he
          obtain ⟨l, hl, hret⟩ := ihn e (by omega) (h.step ⟨he, hk⟩) path (history ++ [i])
            (hpath.step ho)
          exact ⟨l ++ l', .nested path history i e es l l' hk hl hl', hret'.nested hk hret⟩
        · by_cases hn : e.IsName
          · obtain ⟨nt, hd, hb⟩ := h q .refl e he hn
            cases hs : nt.isSumType with
            | true =>
              have ho : Opens LindaType.isSumType c q nt := ⟨hs, e, he, Or.inr hd⟩
              obtain ⟨hret, hl⟩ := (hb hs).flattens
              exact ⟨[] ++ l', .opened path history i e nt es [] l' hd hs
                (hpath.not_mem ho (hret []).acyclic) (hl _ _ (hpath.push ho)) hl',
                hret'.opened hd hs (hret [])⟩
            | false =>
              refine ⟨_, .named path history i e nt es l' hd (fun ht => ?_) hl', ?_⟩
              · rw [hs] at ht
                cases ht
              · exact .cons (l := [(nt, history ++ [i])])
                  ⟨0, fun d _ memo => ⟨memo, flattenSumItem_named i memo history hd hs⟩⟩ hret'
          · have hk : e.isSumType = false := Bool.eq_false_iff.2 hk
            exact ⟨_, .leaf path history i e es l' hk hn hl', .cons (l := [(e, history ++ [i])])
              ⟨0, fun d _ memo => ⟨memo, flattenSumItem_leaf i memo history hk hn⟩⟩ hret'⟩
    obtain ⟨l, hl, hret⟩ := hloop q.items (fun _ he => he) 0
    exact ⟨l, hl, hret.call⟩

/-- Flattening a sum comes to an end with the leaves and their positions exactly if no name of
a sum with an alternative stands in it. -/
theorem flattensSum_iff (s : LindaType) : FlattensSum c s ↔ SumsUnnamed c s := by
  refine ⟨?_, fun h => ?_⟩
  · rintro ⟨l, hl, depth, h⟩
    unfold flattenSumType at h
    obtain ⟨⟨_, m⟩, hr, rfl⟩ := ok_of_map h
    exact flattenSumMemo_fits depth s [] [] _ m [s] _ hr hl (Leads.self _ c s) rfl
  · obtain ⟨l, hl, depth, hret⟩ := SumsUnnamed.returns _ s (Nat.lt_succ_self _) h [s] []
      (Leads.self _ c s)
    obtain ⟨m, hm⟩ := hret depth (Nat.le_refl _) []
    refine ⟨l, hl, depth, ?_⟩
    unfold flattenSumType
    rw [hm]
    rfl

/-- When flattening comes to an end and returns the leaves, in a finite environment. -/
theorem flattens_iff (c : TypeCache) (env : List LindaType)
    (hc : ∀ i t, c i = some t → t ∈ env) :
    (∀ p, p.isProductType = true → (FlattensProduct c p ↔ Expandable c p)) ∧
      ∀ s, s.isSumType = true → (FlattensSum c s ↔ SumsUnnamed c s) :=
  ⟨fun p _ => flattensProduct_iff hc p, fun s _ => flattensSum_iff s⟩

end

/-- `number :: int32; point :: number * number;`. -/
def numberType : LindaType := ⟨"number", .id "int32" none, some "T1"⟩

def pointType : LindaType :=
  ⟨"point", .product [.id "number" (some "T1"), .id "number" (some "T1")], some "T2"⟩

/-- `pair :: int32 * int32;`. -/
def pairType : LindaType :=
  ⟨"pair", .product [.id "int32" none, .id "int32" none], some "T3"⟩

def pointTypes : TypeCache := fun i =>
  if i = "T1" then some numberType else if i = "T2" then some pointType
  else if i = "T3" then some pairType else none

theorem pointTypes_mem (i : String) (t : LindaType) (h : pointTypes i = some t) :
    t ∈ [numberType, pointType, pairType] := by
  unfold pointTypes at h
  split at h
  · cases h
    exact .head _
  · split at h
    · cases h
      exact .tail _ (.head _)
    · split at h
      · cases h
        exact .tail _ (.tail _ (.head _))
      · cases h

theorem pointType_opens (q : LindaType) :
    ¬ Opens LindaType.isProductType pointTypes pointType q := by
  rintro ⟨hq, e, he, hto⟩
  have hspec : e.typeSpec = .id "number" (some "T1") := by
    rcases List.mem_cons.1 he with rfl | he
    · rfl
    · rcases List.mem_cons.1 he with rfl | he
      · rfl
      · cases he
  rcases hto with rfl | hd
  · exact not_isName_of_product hq ⟨"number", some "T1", hspec, by decide⟩
  · obtain ⟨n, i, hs, _, hi⟩ := spec_of_denoted hd
    rw [hspec] at hs
    cases hs
    cases hi
    cases hq

theorem pointType_flattened : FlattensProduct pointTypes pointType := by
  refine ((flattens_iff pointTypes [numberType, pointType, pairType] pointTypes_mem).1 pointType
    rfl).2 fun q hq => ?_
  rcases ReflTransGen.cases_head hq with rfl | ⟨q', ho, _⟩
  · refine ⟨fun hcyc => ?_, Or.inr (Or.inl ⟨numberType, rfl⟩), Or.inr (Or.inl ⟨numberType, rfl⟩),
      trivial⟩
    obtain ⟨q', ho, _⟩ := TransGen.head'_iff.1 hcyc
    exact pointType_opens q' ho
  · exact absurd ho (pointType_opens q')

/-- Nothing was looked up when the first part is appended. -/
theorem pairType_not_flattened : ¬ FlattensProduct pointTypes pairType := by
  rintro ⟨l, _, depth, h⟩
  cases depth with
  | zero => cases h
  | succ depth => cases h

end PyLinda.Types
