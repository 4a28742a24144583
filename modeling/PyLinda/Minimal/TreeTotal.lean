import PyLinda.Minimal.CodeXml
import PyLinda.Minimal.TreeOrder

/-!
# When the comparison of trees is a total order

The comparison of trees is a total order, and says 0 of trees of one structure only, exactly
where any two different `let` differ in each of their parts.
-/

namespace PyLinda.SyntaxTree

open Lib

/-! ## Structure -/

mutual

/-- The tree without its type ids. -/
def untyped : SyntaxTree → SyntaxTree
  | null => null
  | blank => blank
  | nil => nil
  | identifier s _ => identifier s none
  | integer i => integer i
  | string s => string s
  | sequentialDefs bs => sequentialDefs (untypedAll bs)
  | typeSpec n d => typeSpec n (untyped d)
  | typeFunction a v => typeFunction (untyped a) (untyped v)
  | functionDef n p b => functionDef n (untyped p) (untyped b)
  | parameterList n next => parameterList n (untyped next)
  | functionCall f a => functionCall (untyped f) (untyped a)
  | argumentList a next => argumentList (untyped a) (untyped next)
  | operator o l r => operator o (untyped l) (untyped r)
  | productType bs => productType (untypedAll bs)
  | sumType bs => sumType (untypedAll bs)
  | tuple bs => tuple (untypedAll bs)
  | pointer p => pointer p
  | ifExpr i t e => ifExpr (untyped i) (untyped t) (untyped e)
  | bracket d => bracket (untyped d)
  | index e i => index (untyped e) (untyped i)
  | letExpr v e c => letExpr (untyped v) (untyped e) (untyped c)

/-- The trees without their type ids. -/
def untypedAll : List SyntaxTree → List SyntaxTree
  | [] => []
  | t :: ts => untyped t :: untypedAll ts

end

theorem untypedAll_eq (ts : List SyntaxTree) : untypedAll ts = ts.map untyped := by
  induction ts with
  | nil => rfl
  | cons t ts ih => exact congrArg (untyped t :: ·) ih

@[simp] theorem untyped_type (t : SyntaxTree) : t.untyped.type = t.type := by
  cases t <;> rfl

theorem untyped_isLet (t : SyntaxTree) : t.untyped.isLet = t.isLet := by
  cases t <;> rfl

@[simp] theorem untyped_kids (t : SyntaxTree) : t.untyped.kids = t.kids.map untyped := by
  cases t <;> first | rfl | exact untypedAll_eq _

theorem untypedAll_length (ts : List SyntaxTree) : (untypedAll ts).length = ts.length := by
  rw [untypedAll_eq, List.length_map]

@[simp] theorem untyped_label (t : SyntaxTree) : t.untyped.label = t.label := by
  cases t with
  | sequentialDefs bs => exact congrArg (fun n : Nat => ("", (n : Int))) (untypedAll_length bs)
  | productType bs => exact congrArg (fun n : Nat => ("", (n : Int))) (untypedAll_length bs)
  | sumType bs => exact congrArg (fun n : Nat => ("", (n : Int))) (untypedAll_length bs)
  | tuple bs => exact congrArg (fun n : Nat => ("", (n : Int))) (untypedAll_length bs)
  | _ => rfl

/-- A tree put together from its type, its label and its children. -/
def rebuild (type : Nat) (label : String × Int) (kids : List SyntaxTree) : SyntaxTree :=
  match type, kids with
  | 1, _ => blank
  | 2, _ => nil
  | 3, _ => identifier label.1 none
  | 4, _ => integer label.2
  | 5, _ => string label.1
  | 6, bs => sequentialDefs bs
  | 7, [d] => typeSpec label.1 d
  | 8, [a, v] => typeFunction a v
  | 9, [p, b] => functionDef label.1 p b
  | 10, [next] => parameterList label.1 next
  | 11, [f, a] => functionCall f a
  | 12, [a, next] => argumentList a next
  | 13, [l, r] => operator label.1 l r
  | 14, bs => productType bs
  | 15, bs => sumType bs
  | 16, bs => tuple bs
  | 17, _ => pointer label.1
  | 18, [i, t, e] => ifExpr i t e
  | 19, [d] => bracket d
  | 20, [e, i] => index e i
  | 21, [v, e, c] => letExpr v e c
  | _, _ => null

theorem rebuild_untyped (t : SyntaxTree) :
    t.untyped = rebuild t.type t.label (t.kids.map untyped) := by
  rw [← untyped_kids]
  cases t <;> rfl

/-- Trees of one structure have the same type, label and structure of the children. -/
theorem untyped_eq_iff {t u : SyntaxTree} : t.untyped = u.untyped ↔
    t.type = u.type ∧ t.label = u.label ∧ t.kids.map untyped = u.kids.map untyped := by
  constructor
  · intro h
    have htype := congrArg type h
    have hlabel := congrArg label h
    have hkids := congrArg kids h
    rw [untyped_type, untyped_type] at htype
    rw [untyped_label, untyped_label] at hlabel
    rw [untyped_kids, untyped_kids] at hkids
    exact ⟨htype, hlabel, hkids⟩
  · intro ⟨htype, hlabel, hkids⟩
    rw [rebuild_untyped t, rebuild_untyped u, htype, hlabel, hkids]

theorem untyped_let {v e c v' e' c' : SyntaxTree} :
    (letExpr v e c).untyped = (letExpr v' e' c').untyped ↔
      v.untyped = v'.untyped ∧ e.untyped = e'.untyped ∧ c.untyped = c'.untyped := by
  show letExpr v.untyped e.untyped c.untyped = letExpr v'.untyped e'.untyped c'.untyped ↔ _
  constructor
  · intro h
    injection h with hv he hc
    exact ⟨hv, he, hc⟩
  · intro ⟨hv, he, hc⟩
    rw [hv, he, hc]

/-! ## What is the same -/

/-- The children of two lists, seen as one list of pairs. -/
theorem forall₂_mem {R Q : SyntaxTree → SyntaxTree → Prop} {ts us : List SyntaxTree}
    (h : List.Forall₂ R ts us) (hRQ : ∀ t ∈ ts, ∀ u ∈ us, R t u → Q t u) :
    List.Forall₂ Q ts us := by
  induction h with
  | nil => exact .nil
  | cons h _ ih =>
    refine .cons (hRQ _ List.mem_cons_self _ List.mem_cons_self h) (ih fun t ht u hu => ?_)
    exact hRQ t (List.mem_cons_of_mem _ ht) u (List.mem_cons_of_mem _ hu)

theorem map_untyped_eq {ts us : List SyntaxTree} :
    ts.map untyped = us.map untyped ↔
      List.Forall₂ (fun t u => t.untyped = u.untyped) ts us := by
  rw [← List.forall₂_eq_eq_eq, List.forall₂_map_left_iff, List.forall₂_map_right_iff]

/-- Trees of one structure are alike. -/
theorem alike_of_untyped {t u : SyntaxTree} (h : t.untyped = u.untyped) : Alike t u := by
  induction t using SyntaxTree.induct generalizing u with
  | node t ih =>
    obtain ⟨htype, hlabel, hkids⟩ := untyped_eq_iff.1 h
    cases hlet : t.isLet with
    | true =>
      obtain ⟨v, e, c, rfl⟩ := isLet_iff.1 hlet
      obtain ⟨v', e', c', rfl⟩ := isLet_iff.1 (isLet_type.2 (htype ▸ isLet_type.1 hlet))
      exact .letVar _ _ _ _ _ _ (ih v List.mem_cons_self (untyped_let.1 h).1)
    | false =>
      refine .node t u htype hlet hlabel ?_
      exact forall₂_mem (map_untyped_eq.1 hkids) fun k hk b _ hkb => ih k hk hkb

section
variable {strcmp : String → String → Int}

/-- The type ids are not looked at. -/
theorem cmp_untyped (hc : Conforming strcmp) (t u : SyntaxTree) :
    sign (cmp strcmp t.untyped u.untyped) = sign (cmp strcmp t u) := by
  induction t using SyntaxTree.induct generalizing u with
  | node t ih =>
    by_cases htype : t.type = u.type
    · cases hlet : t.isLet with
      | true =>
        obtain ⟨v, e, c, rfl⟩ := isLet_iff.1 hlet
        obtain ⟨v', e', c', rfl⟩ := isLet_iff.1 (isLet_type.2 (htype ▸ isLet_type.1 hlet))
        have hzero {k : SyntaxTree} (hk : k ∈ (letExpr v e c).kids) (k' : SyntaxTree) :
            cmp strcmp k.untyped k'.untyped = 0 ↔ cmp strcmp k k' = 0 := by
          rw [← sign_eq, ih k hk, sign_eq]
        have hv := hzero List.mem_cons_self v'
        have he := hzero (List.mem_cons_of_mem _ List.mem_cons_self) e'
        have hcode := ih c (List.mem_cons_of_mem _ (List.mem_cons_of_mem _ List.mem_cons_self)) c'
        show sign (cmp strcmp (letExpr v.untyped e.untyped c.untyped)
          (letExpr v'.untyped e'.untyped c'.untyped)) = _
        rw [cmp_let, cmp_let]
        by_cases hv0 : cmp strcmp v v' = 0
        · rw [if_neg (not_not_intro hv0), if_neg (not_not_intro (hv.2 hv0)), hv.2 hv0, hv0]
        · rw [if_pos hv0, if_pos (fun h => hv0 (hv.1 h))]
          by_cases he0 : cmp strcmp e e' = 0
          · rw [if_neg (not_not_intro he0), if_neg (not_not_intro (he.2 he0)), he.2 he0, he0]
          · rw [if_pos he0, if_pos (fun h => he0 (he.1 h)), hcode]
      | false =>
        have hlexi : lexi (fun a b => sign (cmp strcmp a b)) (t.kids.map untyped)
            (u.kids.map untyped) = lexi (fun a b => sign (cmp strcmp a b)) t.kids u.kids :=
          lexi_map fun k hk k' => ih k hk k'
        rw [cmp_same hc (by rw [untyped_type, untyped_type, htype]) (by rw [untyped_isLet, hlet]),
          cmp_same hc htype hlet, untyped_label, untyped_label, untyped_kids, untyped_kids, hlexi]
    · rw [cmp_differ htype, cmp_differ (by rw [untyped_type, untyped_type]; exact htype),
        untyped_type, untyped_type]

end

/-! ## The order -/

/-- The comparison is a total order on the trees of `S`, and says 0 of trees of one structure. -/
structure Ordered (strcmp : String → String → Int) (S : SyntaxTree → Prop) : Prop where
  swap : ∀ t u, S t → S u → sign (cmp strcmp u t) = (sign (cmp strcmp t u)).swap
  trans : ∀ t u w, S t → S u → S w →
    Coherent (sign (cmp strcmp t u)) (sign (cmp strcmp u w)) (sign (cmp strcmp t w))
  zero : ∀ t u, S t → S u → (cmp strcmp t u = 0 ↔ t.untyped = u.untyped)

/-- Two `let` of `S` that differ do so in the variable, in the expression and in the code. -/
def LetsApart (S : SyntaxTree → Prop) : Prop := ∀ v e c v' e' c',
  S (letExpr v e c) → S (letExpr v' e' c') →
    (letExpr v e c).untyped ≠ (letExpr v' e' c').untyped →
      v.untyped ≠ v'.untyped ∧ e.untyped ≠ e'.untyped ∧ c.untyped ≠ c'.untyped

section
variable {strcmp : String → String → Int} {S : SyntaxTree → Prop}

/-- Alike trees have one structure. -/
theorem LetsApart.untyped_of_alike (hlets : LetsApart S) (hS : ∀ t, S t → ∀ k ∈ t.kids, S k)
    {t u : SyntaxTree} (ht : S t) (hu : S u) (h : Alike t u) : t.untyped = u.untyped := by
  induction t using SyntaxTree.induct generalizing u with
  | node t ih =>
    cases h with
    | letVar v e c v' e' c' h =>
      have hsame := ih v List.mem_cons_self (hS _ ht v List.mem_cons_self)
        (hS _ hu v' List.mem_cons_self) h
      exact Classical.byContradiction fun hne => (hlets _ _ _ _ _ _ ht hu hne).1 hsame
    | letExpr v e c v' e' c' h =>
      have hmem {v e c : SyntaxTree} : e ∈ (SyntaxTree.letExpr v e c).kids :=
        List.mem_cons_of_mem _ List.mem_cons_self
      have hsame := ih e hmem (hS _ ht e hmem) (hS _ hu e' hmem) h
      exact Classical.byContradiction fun hne => (hlets _ _ _ _ _ _ ht hu hne).2.1 hsame
    | letCode v e c v' e' c' h =>
      have hmem {v e c : SyntaxTree} : c ∈ (SyntaxTree.letExpr v e c).kids :=
        List.mem_cons_of_mem _ (List.mem_cons_of_mem _ List.mem_cons_self)
      have hsame := ih c hmem (hS _ ht c hmem) (hS _ hu c' hmem) h
      exact Classical.byContradiction fun hne => (hlets _ _ _ _ _ _ ht hu hne).2.2 hsame
    | node _ _ htype _ hlabel hkids =>
      refine untyped_eq_iff.2 ⟨htype, hlabel, map_untyped_eq.2 ?_⟩
      exact forall₂_mem hkids fun k hk k' hk' hkk => ih k hk (hS t ht k hk) (hS u hu k' hk') hkk

theorem LetsApart.zero (hc : Conforming strcmp) (hlets : LetsApart S)
    (hS : ∀ t, S t → ∀ k ∈ t.kids, S k) {t u : SyntaxTree} (ht : S t) (hu : S u) :
    cmp strcmp t u = 0 ↔ t.untyped = u.untyped := by
  rw [cmp_eq_zero_iff hc]
  exact ⟨hlets.untyped_of_alike hS ht hu, alike_of_untyped⟩

/-- Of the trees of `S` the comparison gets to no `let` it does not put in order. -/
theorem LetsApart.settled (hc : Conforming strcmp) (hlets : LetsApart S)
    (hS : ∀ t, S t → ∀ k ∈ t.kids, S k) {t u : SyntaxTree} (ht : S t) (hu : S u) :
    Settled t.untyped u.untyped := by
  induction t using SyntaxTree.induct generalizing u with
  | node t ih =>
    by_cases htype : t.type = u.type
    · cases hlet : t.isLet with
      | true =>
        obtain ⟨v, e, c, rfl⟩ := isLet_iff.1 hlet
        obtain ⟨v', e', c', rfl⟩ := isLet_iff.1 (isLet_type.2 (htype ▸ isLet_type.1 hlet))
        by_cases hsame : (letExpr v e c).untyped = (letExpr v' e' c').untyped
        · rw [← hsame]
          exact .letSame _ _ _
        · obtain ⟨hv, he, hcode⟩ := hlets _ _ _ _ _ _ ht hu hsame
          have hapart {k k' : SyntaxTree} (hk : k ∈ (letExpr v e c).kids)
              (hk' : k' ∈ (letExpr v' e' c').kids) (hne : k.untyped ≠ k'.untyped) :
              ¬ Alike k.untyped k'.untyped := by
            rw [← cmp_eq_zero_iff hc, ← sign_eq, cmp_untyped hc, sign_eq,
              hlets.zero hc hS (hS _ ht k hk) (hS _ hu k' hk')]
            exact hne
          have he2 {v e c : SyntaxTree} : e ∈ (letExpr v e c).kids :=
            List.mem_cons_of_mem _ List.mem_cons_self
          have hc3 {v e c : SyntaxTree} : c ∈ (letExpr v e c).kids :=
            List.mem_cons_of_mem _ (List.mem_cons_of_mem _ List.mem_cons_self)
          exact .letApart _ _ _ _ _ _ (hapart List.mem_cons_self List.mem_cons_self hv)
            (hapart he2 he2 he) (ih c hc3 (hS _ ht c hc3) (hS _ hu c' hc3))
      | false =>
        refine .kids _ _ (by rw [untyped_isLet, hlet]) ?_
        rw [untyped_kids, untyped_kids]
        refine along_of_forall fun a ha b hb => ?_
        obtain ⟨k, hk, rfl⟩ := List.mem_map.1 ha
        obtain ⟨k', hk', rfl⟩ := List.mem_map.1 hb
        exact ih k hk (hS t ht k hk) (hS u hu k' hk')
    · exact .differ _ _ (by rw [untyped_type, untyped_type]; exact htype)

/-- On a set of trees with all their parts the comparison is a total order that says 0 of trees
of one structure exactly if any two different `let` in it differ in each part. -/
theorem cmp_ordered_iff (hc : Conforming strcmp) (hS : ∀ t, S t → ∀ k ∈ t.kids, S k) :
    Ordered strcmp S ↔ LetsApart S := by
  constructor
  · intro h v e c v' e' c' ht hu hne
    have hnot : ¬ Alike (letExpr v e c) (letExpr v' e' c') := by
      rw [← cmp_eq_zero_iff hc, h.zero _ _ ht hu]
      exact hne
    exact ⟨fun hv => hnot (.letVar _ _ _ _ _ _ (alike_of_untyped hv)),
      fun he => hnot (.letExpr _ _ _ _ _ _ (alike_of_untyped he)),
      fun hcode => hnot (.letCode _ _ _ _ _ _ (alike_of_untyped hcode))⟩
  · intro hlets
    refine ⟨fun t u _ _ => cmp_swap hc t u, fun t u w ht hu hw => ?_,
      fun t u ht hu => hlets.zero hc hS ht hu⟩
    rw [← cmp_untyped hc t u, ← cmp_untyped hc u w, ← cmp_untyped hc t w]
    exact cmp_coherent hc (hlets.settled hc hS ht hu) (hlets.settled hc hS hu hw)
      (hlets.settled hc hS ht hw)

end

/-- There is no `let` among the leaves. -/
theorem cmp_ordered_leaves :
    Ordered NameMap.signs (fun t => t.kids = []) ↔ LetsApart fun t => t.kids = [] :=
  cmp_ordered_iff NameMap.signs_conforming fun t (ht : t.kids = []) k hk => by
    rw [ht] at hk
    cases hk

/-- `let x = 1 in x` and `let x = 2 in x` are the same to the comparison. -/
theorem lets_equal : ¬ ∀ strcmp, Conforming strcmp → Ordered strcmp SyntaxTree.Expr := by
  intro h
  have hlet (i : Int) :
      (letExpr (identifier "x" none) (integer i) (identifier "x" none)).Expr :=
    .letExpr "x" (.integer i) (.identifier "x")
  have halike := Alike.letVar (identifier "x" none) (integer 1) (identifier "x" none)
    (identifier "x" none) (integer 2) (identifier "x" none) (.refl _)
  have hsame := ((h NameMap.signs NameMap.signs_conforming).zero _ _ (hlet 1) (hlet 2)).1
    ((cmp_eq_zero_iff NameMap.signs_conforming _ _).2 halike)
  cases (untyped_let.1 hsame).2.1

end PyLinda.SyntaxTree
