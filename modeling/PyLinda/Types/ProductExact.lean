import PyLinda.Types.Leaves

/-!
# When flattening a product returns the leaves

The expansion has to come to an end by itself, since the memo never stops it, and its parts
have to be products or registered names, since the last branch of the loop appends what an
earlier round looked up.
-/

namespace PyLinda.Types

open Lib Relation

section
variable (c : TypeCache)

/-- Every part is a product, a registered name, or by chance the type that the last name before
it denotes, which is `t` at the beginning. -/
def Placed : Option LindaType → List LindaType → Prop
  | _, [] => True
  | t, e :: es =>
    (e.isProductType = true ∨ (∃ nt, denoted c e = some nt) ∨ (¬ e.IsName ∧ t = some e)) ∧
      Placed ((denoted c e).or t) es

/-- No product that taking `p` apart leads to leads back to itself, and the parts of each of
them are placed. -/
def Expandable (p : LindaType) : Prop :=
  ∀ q, ReflTransGen (Opens LindaType.isProductType c) p q →
    ¬ TransGen (Opens LindaType.isProductType c) q q ∧ Placed c none q.items

/-- Flattening the product returns, at this depth. -/
def ReturnsProduct (depth : Nat) (q : LindaType) : Prop :=
  ∃ memo r, flattenProductMemo c depth q memo = .ok r

end

section
variable {c : TypeCache}

/-! ## Products -/

/-- If a loop comes to an end, so do the calls it makes. -/
theorem flattenProductLoop_calls
    {flatten : LindaType → TypeMemo → Except TypeExc (List LindaType × TypeMemo)}
    (es : List LindaType) : ∀ memo t r, flattenProductLoop c flatten es memo t = .ok r →
    ∀ e ∈ es, ∀ q, q.isProductType = true → e = q ∨ denoted c e = some q →
      ∃ memo' r', flatten q memo' = .ok r' := by
  induction es with
  | nil =>
    intro memo t r _ e he
    cases he
  | cons e es ih =>
    intro memo t r h u hu q hq hto
    unfold flattenProductLoop at h
    obtain ⟨⟨l₁, m₁, t₁⟩, h₁, h⟩ := ok_of_bind h
    obtain ⟨⟨l₂, m₂⟩, h₂, _⟩ := ok_of_bind h
    rcases List.mem_cons.1 hu with rfl | hu
    · rcases hto with rfl | hd
      · rw [flattenProductItem_nested memo t hq] at h₁
        obtain ⟨r', hr', _⟩ := ok_of_bind h₁
        exact ⟨memo, r', hr'⟩
      · rw [flattenProductItem_opened memo t hd hq] at h₁
        obtain ⟨r', hr', _⟩ := ok_of_bind h₁
        exact ⟨memo, r', hr'⟩
    · exact ih m₁ t₁ _ h₂ u hu q hq hto

theorem ReturnsProduct.falls (depth : Nat) (q q' : LindaType) (h : ReturnsProduct c depth q)
    (ho : Opens LindaType.isProductType c q q') : ∃ d < depth, ReturnsProduct c d q' := by
  obtain ⟨memo, r, h⟩ := h
  obtain ⟨hk, e, he, hto⟩ := ho
  cases depth with
  | zero => cases h
  | succ depth =>
    exact ⟨depth, by omega, flattenProductLoop_calls q.items _ none r h e he q' hk hto⟩

/-- What returns does not lead back to itself: every call goes one deeper. -/
theorem ReturnsProduct.acyclic {depth : Nat} {q : LindaType} (h : ReturnsProduct c depth q) :
    ¬ TransGen (Opens LindaType.isProductType c) q q :=
  not_cycle_of_falls ReturnsProduct.falls depth q h

/-- The products of `path` lead to `q`. -/
def Leads (kind : LindaType → Bool) (c : TypeCache) (path : List LindaType) (q : LindaType) :
    Prop :=
  ∀ x ∈ path, ReflTransGen (Opens kind c) x q

theorem Leads.step {kind : LindaType → Bool} {path : List LindaType} {q q' : LindaType}
    (h : Leads kind c path q) (ho : Opens kind c q q') : Leads kind c path q' :=
  fun x hx => (h x hx).tail ho

theorem Leads.push {kind : LindaType → Bool} {path : List LindaType} {q q' : LindaType}
    (h : Leads kind c path q) (ho : Opens kind c q q') : Leads kind c (q' :: path) q' := by
  intro x hx
  rcases List.mem_cons.1 hx with rfl | hx
  · exact .refl
  · exact h.step ho x hx

theorem Leads.self (kind : LindaType → Bool) (c : TypeCache) (q : LindaType) :
    Leads kind c [q] q := by
  intro x hx
  obtain rfl := List.mem_singleton.1 hx
  exact .refl

/-- A type that is being taken apart is met again only on a cycle. -/
theorem Leads.not_mem {kind : LindaType → Bool} {path : List LindaType} {q q' : LindaType}
    (h : Leads kind c path q) (ho : Opens kind c q q') (hac : ¬ TransGen (Opens kind c) q' q') :
    q' ∉ path :=
  fun hm => hac (TransGen.tail' (h q' hm) ho)

section
variable {q : LindaType} {depth : Nat}

/-- What the result of a loop says of the items, compared with the leaves: as many, and if they
are the same then every part was placed, also in the products below. -/
def Compared (c : TypeCache) (t : Option LindaType) (es l : List LindaType) (l' : List SumPart) :
    Prop :=
  l.length = l'.length ∧ (l = l'.map Prod.fst → Placed c t es ∧
    ∀ e ∈ es, ∀ q', q'.isProductType = true → e = q' ∨ denoted c e = some q' →
      ∀ q'', ReflTransGen (Opens LindaType.isProductType c) q' q'' → Placed c none q''.items)

theorem Compared.nil (t : Option LindaType) : Compared c t [] [] [] :=
  ⟨rfl, fun _ => ⟨trivial, fun e he => by cases he⟩⟩

/-- What a call returned, compared with the leaves of the type it was made for. -/
def CallCompared (c : TypeCache) (q : LindaType) (l : List LindaType) (l' : List SumPart) : Prop :=
  l.length = l'.length ∧ (l = l'.map Prod.fst →
    ∀ q', ReflTransGen (Opens LindaType.isProductType c) q q' → Placed c none q'.items)

/-- A round that takes `q'` apart. -/
theorem Compared.call {e q' : LindaType} {t t' : Option LindaType} {es l₁ l₂ : List LindaType}
    {l₁' l₂' : List SumPart} (ht : (denoted c e).or t = t')
    (hto : ∀ u, u.isProductType = true → e = u ∨ denoted c e = some u → u = q')
    (hpl : e.isProductType = true ∨ ∃ nt, denoted c e = some nt) (h₁ : CallCompared c q' l₁ l₁')
    (h₂ : Compared c t' es l₂ l₂') : Compared c t (e :: es) (l₁ ++ l₂) (l₁' ++ l₂') := by
  refine ⟨by rw [List.length_append, List.length_append, h₁.1, h₂.1], fun heq => ?_⟩
  rw [List.map_append] at heq
  obtain ⟨heq₁, heq₂⟩ := List.append_inj heq (by rw [List.length_map, h₁.1])
  obtain ⟨hp, hrest⟩ := h₂.2 heq₂
  refine ⟨⟨hpl.elim Or.inl fun hd => Or.inr (Or.inl hd), by rw [ht]; exact hp⟩, ?_⟩
  intro u hu v hv huv w hw
  rcases List.mem_cons.1 hu with rfl | hu
  · obtain rfl := hto v hv huv
    exact h₁.2 heq₁ w hw
  · exact hrest u hu v hv huv w hw

/-- A round that appends one type. -/
theorem Compared.one {e u : LindaType} {v : SumPart} {t t' : Option LindaType}
    {es l : List LindaType} {l' : List SumPart} (ht : (denoted c e).or t = t')
    (hno : ∀ q', q'.isProductType = true → e = q' ∨ denoted c e = some q' → False)
    (hpl : u = v.1 → (∃ nt, denoted c e = some nt) ∨ (¬ e.IsName ∧ t = some e))
    (h : Compared c t' es l l') : Compared c t (e :: es) (u :: l) (v :: l') := by
  refine ⟨congrArg (· + 1) h.1, fun heq => ?_⟩
  obtain ⟨hu, heq⟩ := List.cons.inj heq
  obtain ⟨hp, hrest⟩ := h.2 heq
  refine ⟨⟨Or.inr (hpl hu), by rw [ht]; exact hp⟩, ?_⟩
  intro w hw q' hq' hto
  rcases List.mem_cons.1 hw with rfl | hw
  · exact (hno q' hq' hto).elim
  · exact hrest w hw q' hq' hto

theorem flattenProductLoop_compared
    (hrec : ∀ q' memo l m path history l', flattenProductMemo c depth q' memo = .ok (l, m) →
      Leaves LindaType.isProductType c path history 0 q'.items l' →
      Leads LindaType.isProductType c path q' → CallCompared c q' l l')
    (es : List LindaType) : (∀ e ∈ es, e ∈ q.items) →
    ∀ memo m t l path history i l',
      flattenProductLoop c (flattenProductMemo c depth) es memo t = .ok (l, m) →
      Leaves LindaType.isProductType c path history i es l' →
      Leads LindaType.isProductType c path q → Compared c t es l l' := by
  induction es with
  | nil =>
    intro _ memo m t l path history i l' h hl _
    cases h
    cases hl
    exact .nil t
  | cons e es ih =>
    intro hes memo m t l path history i l' h hl hpath
    have hitem : e ∈ q.items := hes e List.mem_cons_self
    have hes' : ∀ u ∈ es, u ∈ q.items := fun u hu => hes u (List.mem_cons_of_mem _ hu)
    unfold flattenProductLoop at h
    obtain ⟨⟨l₁, m₁, t₁⟩, h₁, h⟩ := ok_of_bind h
    obtain ⟨⟨l₂, m₂⟩, h₂, h⟩ := ok_of_bind h
    cases h
    cases hl with
    | nested _ _ _ _ _ k k' hk hk₁ hk₂ =>
      rw [flattenProductItem_nested memo t hk] at h₁
      obtain ⟨r, hr, h₁⟩ := ok_of_bind h₁
      cases h₁
      have hnd : denoted c e = none := denoted_of_not_isName (not_isName_of_product hk)
      have ho : Opens LindaType.isProductType c q e := ⟨hk, e, hitem, Or.inl rfl⟩
      refine @Compared.call c e e _ _ _ _ _ _ _ (by rw [hnd]; rfl) ?_ (Or.inl hk)
        (hrec e memo _ _ path _ k hr hk₁ (hpath.step ho))
        (ih hes' _ _ t l₂ path history (i + 1) k' h₂ hk₂ hpath)
      intro u _ hu
      rcases hu with rfl | hu
      · rfl
      · rw [hnd] at hu
        cases hu
    | opened _ _ _ _ nt _ k k' hd hk hnew hk₁ hk₂ =>
      rw [flattenProductItem_opened memo t hd hk] at h₁
      obtain ⟨r, hr, h₁⟩ := ok_of_bind h₁
      cases h₁
      have ho : Opens LindaType.isProductType c q nt := ⟨hk, e, hitem, Or.inr hd⟩
      refine @Compared.call c e nt _ _ _ _ _ _ _ (by rw [hd]; rfl) ?_ (Or.inr ⟨nt, hd⟩)
        (hrec nt memo _ _ _ _ k hr hk₁ (hpath.push ho))
        (ih hes' _ _ (some nt) l₂ path history (i + 1) k' h₂ hk₂ hpath)
      intro u hup hu
      rcases hu with rfl | hu
      · exact absurd (isName_of_denoted hd) (not_isName_of_product hup)
      · exact Option.some.inj (hu.symm.trans hd)
    | named _ _ _ _ nt _ k' hd hcut hk₂ =>
      cases hk : nt.isProductType with
      | true =>
        -- the type is being taken apart, and the code takes it apart again
        rw [flattenProductItem_opened memo t hd hk] at h₁
        obtain ⟨r, hr, _⟩ := ok_of_bind h₁
        have hac := ReturnsProduct.acyclic ⟨memo, r, hr⟩
        exact absurd (hcut hk) (hpath.not_mem ⟨hk, e, hitem, Or.inr hd⟩ hac)
      | false =>
        rw [flattenProductItem_named memo t hd hk] at h₁
        cases h₁
        refine .one (by rw [hd]; rfl) ?_ (fun _ => Or.inl ⟨nt, hd⟩)
          (ih hes' _ _ (some nt) l₂ path history (i + 1) k' h₂ hk₂ hpath)
        intro u hup hu
        rcases hu with rfl | hu
        · exact not_isName_of_product hup (isName_of_denoted hd)
        · rw [hd] at hu
          cases hu
          rw [hk] at hup
          cases hup
    | leaf _ _ _ _ _ k' hk hn hk₂ =>
      rw [flattenProductItem_leaf memo t hk hn] at h₁
      have hnd : denoted c e = none := denoted_of_not_isName hn
      cases t with
      | none => cases h₁
      | some u =>
        cases h₁
        refine .one (by rw [hnd]; rfl) ?_ (fun hu => Or.inr ⟨hn, congrArg some hu⟩)
          (ih hes' _ _ (some u) l₂ path history (i + 1) k' h₂ hk₂ hpath)
        intro v hvp hv
        rcases hv with rfl | hv
        · rw [hk] at hvp
          cases hvp
        · rw [hnd] at hv
          cases hv

end

theorem flattenProductMemo_compared (depth : Nat) : ∀ q memo l m path history l',
    flattenProductMemo c depth q memo = .ok (l, m) →
    Leaves LindaType.isProductType c path history 0 q.items l' →
    Leads LindaType.isProductType c path q → CallCompared c q l l' := by
  induction depth with
  | zero =>
    intro q memo l m path history l' h
    cases h
  | succ depth ih =>
    intro q memo l m path history l' h hl hpath
    obtain ⟨hlen, hplaced⟩ := flattenProductLoop_compared ih q.items (fun _ he => he) _ m none l
      path history 0 l' h hl hpath
    refine ⟨hlen, fun heq q' hq' => ?_⟩
    obtain ⟨hp, hrest⟩ := hplaced heq
    rcases ReflTransGen.cases_head hq' with rfl | ⟨v, ⟨hv, e, he, hto⟩, hq'⟩
    · exact hp
    · exact hrest e he v hv hto q' hq'

/-- The call returns `l`, whatever the memo, if it may go deep enough. -/
def CallReturns (c : TypeCache) (q : LindaType) (l : List LindaType) : Prop :=
  ∃ depth, ∀ d, depth ≤ d → ∀ memo, ∃ m, flattenProductMemo c d q memo = .ok (l, m)

def LoopReturns (c : TypeCache) (t : Option LindaType) (es l : List LindaType) : Prop :=
  ∃ depth, ∀ d, depth ≤ d → ∀ memo, ∃ m,
    flattenProductLoop c (flattenProductMemo c d) es memo t = .ok (l, m)

/-- A round that ends well, and the rest of the loop. -/
theorem LoopReturns.cons {e : LindaType} {t t' : Option LindaType} {es l l' : List LindaType}
    (h : ∃ depth, ∀ d, depth ≤ d → ∀ memo, ∃ m,
      flattenProductItem c (flattenProductMemo c d) e memo t = .ok (l, m, t'))
    (h' : LoopReturns c t' es l') : LoopReturns c t (e :: es) (l ++ l') := by
  obtain ⟨d₁, h₁⟩ := h
  obtain ⟨d₂, h₂⟩ := h'
  refine ⟨max d₁ d₂, fun d hd memo => ?_⟩
  obtain ⟨m₁, h₁⟩ := h₁ d (by omega) memo
  obtain ⟨m₂, h₂⟩ := h₂ d (by omega) m₁
  unfold flattenProductLoop
  rw [bind_ok h₁]
  show ∃ m, (flattenProductLoop c (flattenProductMemo c d) es m₁ t' >>= _) = _
  rw [bind_ok h₂]
  exact ⟨m₂, rfl⟩

theorem Placed.returns {q : LindaType} {path : List LindaType} {history : List Nat}
    (hpath : Leads LindaType.isProductType c path q)
    (hac : ∀ q', Opens LindaType.isProductType c q q' →
      ¬ TransGen (Opens LindaType.isProductType c) q' q')
    (hrec : ∀ q', Opens LindaType.isProductType c q q' → ∀ path history,
      Leads LindaType.isProductType c path q' →
        ∃ l, Leaves LindaType.isProductType c path history 0 q'.items l ∧
          CallReturns c q' (l.map Prod.fst)) (es : List LindaType) :
    (∀ e ∈ es, e ∈ q.items) → ∀ t i, Placed c t es →
      ∃ l, Leaves LindaType.isProductType c path history i es l ∧
        LoopReturns c t es (l.map Prod.fst) := by
  induction es with
  | nil => exact fun _ t i _ => ⟨[], .nil path history i, 0, fun d _ memo => ⟨memo, rfl⟩⟩
  | cons e es ih =>
    intro hes t i hp
    have hitem : e ∈ q.items := hes e List.mem_cons_self
    obtain ⟨l', hl', hret'⟩ := ih (fun u hu => hes u (List.mem_cons_of_mem _ hu)) _ (i + 1) hp.2
    by_cases hk : e.isProductType = true
    · have ho : Opens LindaType.isProductType c q e := ⟨hk, e, hitem, Or.inl rfl⟩
      obtain ⟨l, hl, depth, hret⟩ := hrec e ho path (history ++ [i]) (hpath.step ho)
      have hnd : denoted c e = none := denoted_of_not_isName (not_isName_of_product hk)
      rw [hnd] at hret'
      refine ⟨l ++ l', .nested path history i e es l l' hk hl hl', ?_⟩
      rw [List.map_append]
      refine LoopReturns.cons ⟨depth, fun d hd memo => ?_⟩ hret'
      obtain ⟨m, hm⟩ := hret d hd memo
      rw [flattenProductItem_nested memo t hk, bind_ok hm]
      exact ⟨m, rfl⟩
    · rcases hp.1 with hk' | ⟨nt, hd⟩ | ⟨hn, rfl⟩
      · exact absurd hk' hk
      · rw [hd] at hret'
        cases hk : nt.isProductType with
        | true =>
          have ho : Opens LindaType.isProductType c q nt := ⟨hk, e, hitem, Or.inr hd⟩
          obtain ⟨l, hl, depth, hret⟩ := hrec nt ho (nt :: path) (history ++ [i]) (hpath.push ho)
          refine ⟨l ++ l', .opened path history i e nt es l l' hd hk (hpath.not_mem ho (hac nt ho))
            hl hl', ?_⟩
          rw [List.map_append]
          refine LoopReturns.cons ⟨depth, fun d hle memo => ?_⟩ hret'
          obtain ⟨m, hm⟩ := hret d hle memo
          rw [flattenProductItem_opened memo t hd hk, bind_ok hm]
          exact ⟨m, rfl⟩
        | false =>
          refine ⟨_, .named path history i e nt es l' hd (fun h => ?_) hl', ?_⟩
          · rw [hk] at h
            cases h
          · exact LoopReturns.cons (l := [nt])
              ⟨0, fun d _ memo => ⟨memo, flattenProductItem_named memo t hd hk⟩⟩ hret'
      · have hk : e.isProductType = false := Bool.eq_false_iff.2 hk
        have hnd : denoted c e = none := denoted_of_not_isName hn
        rw [hnd] at hret'
        refine ⟨_, .leaf path history i e es l' hk hn hl', ?_⟩
        exact LoopReturns.cons (l := [e])
          ⟨0, fun d _ memo => ⟨memo, flattenProductItem_leaf memo _ hk hn⟩⟩ hret'

theorem Expandable.step {q q' : LindaType} (h : Expandable c q)
    (ho : Opens LindaType.isProductType c q q') : Expandable c q' :=
  fun v hv => h v (hv.head ho)

theorem Expandable.returns {q : LindaType} (hacc : Acc (flip (Opens LindaType.isProductType c)) q) :
    Expandable c q → ∀ path history, Leads LindaType.isProductType c path q →
      ∃ l, Leaves LindaType.isProductType c path history 0 q.items l ∧
        CallReturns c q (l.map Prod.fst) := by
  induction hacc with
  | intro q _ ih =>
    intro h path history hpath
    have hac : ∀ q', Opens LindaType.isProductType c q q' →
        ¬ TransGen (Opens LindaType.isProductType c) q' q' := fun q' ho => (h q' (.single ho)).1
    obtain ⟨l, hl, depth, hret⟩ := Placed.returns hpath hac
      (fun q' ho => ih q' ho (h.step ho)) q.items (fun _ he => he) none 0 (h q .refl).2
    refine ⟨l, hl, depth + 1, fun d hd memo => ?_⟩
    obtain ⟨d, rfl⟩ : ∃ k, d = k + 1 := ⟨d - 1, by omega⟩
    exact hret d (by omega) (memo.mark q)

/-- A finite environment leads to finitely many types. -/
theorem finite_opens (kind : LindaType → Bool) {env : List LindaType}
    (hc : ∀ i t, c i = some t → t ∈ env) (p : LindaType) :
    Set.Finite {q | ReflTransGen (Opens kind c) p q} := by
  have hU := @typesWithin_closed c (p :: env) fun i t h => List.mem_cons_of_mem _ (hc i t h)
  refine Set.Finite.subset (List.finite_toSet (typesWithin (p :: env))) fun q hq => ?_
  induction hq with
  | refl => exact mem_typesWithin List.mem_cons_self
  | tail _ ho ih =>
    obtain ⟨_, e, he, rfl | hd⟩ := ho
    · exact hU.items _ ih _ he
    · exact hU.denoted hd

/-- Flattening a product comes to an end with the leaves exactly if the expansion does, and
everything in it is a product or a registered name. -/
theorem flattensProduct_iff {env : List LindaType} (hc : ∀ i t, c i = some t → t ∈ env)
    (p : LindaType) : FlattensProduct c p ↔ Expandable c p := by
  refine ⟨?_, fun h => ?_⟩
  · rintro ⟨l, hl, depth, h⟩ q hq
    unfold flattenProductType at h
    obtain ⟨⟨_, m⟩, hr, rfl⟩ := ok_of_map h
    have hret : ∃ d, ReturnsProduct c d q := by
      induction hq with
      | refl => exact ⟨depth, [], _, hr⟩
      | tail _ ho ih =>
        obtain ⟨d, hd⟩ := ih
        obtain ⟨d', _, hd'⟩ := hd.falls _ _ _ ho
        exact ⟨d', hd'⟩
    obtain ⟨d, hd⟩ := hret
    exact ⟨hd.acyclic, (flattenProductMemo_compared depth p [] _ m [p] [] l hr hl
      (Leads.self _ c p)).2 rfl q hq⟩
  · have hacc := acc_of_acyclic (finite_opens _ hc p) fun q hq => (h q hq).1
    obtain ⟨l, hl, depth, hret⟩ := h.returns hacc [p] [] (Leads.self _ c p)
    obtain ⟨m, hm⟩ := hret depth (Nat.le_refl _) []
    refine ⟨l, hl, depth, ?_⟩
    unfold flattenProductType
    rw [hm]
    rfl

end

end PyLinda.Types
