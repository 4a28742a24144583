import PyLinda.Lib.Comparison
import PyLinda.Minimal.NameMap
import PyLinda.Minimal.SyntaxTree

/-!
# Comparing syntax trees

`Minimal_SyntaxTree_cmp`. Apart from `let` it compares the type, a text or a number, and then
the children one after the other; two `let` that differ in less than their name and their
expression are the same to it.
-/

namespace PyLinda

open Lib

section
variable {strcmp : String → String → Int}

theorem Conforming.orders (hc : Conforming strcmp) : Orders (· < ·) strcmp where
  trans _ _ _ := String.lt_trans
  neg := hc.neg
  zero := hc.zero
  pos _ _ := hc.pos

theorem Conforming.self (hc : Conforming strcmp) (s : String) : sign (strcmp s s) = .eq :=
  sign_eq.2 ((hc.zero s s).2 rfl)

end

namespace SyntaxTree

/-- One more than the number of the `ST_*`; `NULL` has none. -/
def type : SyntaxTree → Nat
  | null => 0
  | blank => 1
  | nil => 2
  | identifier _ _ => 3
  | integer _ => 4
  | string _ => 5
  | sequentialDefs _ => 6
  | typeSpec _ _ => 7
  | typeFunction _ _ => 8
  | functionDef _ _ _ => 9
  | parameterList _ _ => 10
  | functionCall _ _ => 11
  | argumentList _ _ => 12
  | operator _ _ _ => 13
  | productType _ => 14
  | sumType _ => 15
  | tuple _ => 16
  | pointer _ => 17
  | ifExpr _ _ _ => 18
  | bracket _ => 19
  | index _ _ => 20
  | letExpr _ _ _ => 21

section
variable (strcmp : String → String → Int)

mutual

/-- `Minimal_SyntaxTree_cmp`. -/
def cmp (t1 t2 : SyntaxTree) : Int :=
  if t1.isNull ∧ t2.isNull then 0
  else if t1.isNull then -1
  else if t2.isNull then 1
  else if t1.type < t2.type then -1
  else if t1.type > t2.type then 1
  else match t1, t2 with
    | .blank, .blank => 0
    | .nil, .nil => 0
    | .identifier s1 _, .identifier s2 _ => strcmp s1 s2
    | .integer i1, .integer i2 => if i1 < i2 then -1 else if i1 = i2 then 0 else 1
    | .string s1, .string s2 => strcmp s1 s2
    | .sequentialDefs b1, .sequentialDefs b2 =>
      if b1.length < b2.length then -1
      else if b1.length > b2.length then 1
      else cmpLoop b1 b2
    | .typeSpec n1 d1, .typeSpec n2 d2 =>
      if strcmp n1 n2 ≠ 0 then strcmp n1 n2 else cmp d1 d2
    | .typeFunction a1 v1, .typeFunction a2 v2 => -- both have two branches
      if cmp a1 a2 ≠ 0 then cmp a1 a2
      else if cmp v1 v2 ≠ 0 then cmp v1 v2
      else 0
    | .functionDef n1 p1 b1, .functionDef n2 p2 b2 =>
      if strcmp n1 n2 ≠ 0 then strcmp n1 n2
      else if cmp p1 p2 ≠ 0 then cmp p1 p2
      else cmp b1 b2
    | .parameterList n1 next1, .parameterList n2 next2 =>
      if strcmp n1 n2 ≠ 0 then strcmp n1 n2
      else if next1.isNull ∧ next2.isNull then 0
      else if next1.isNull then -1
      else if next1.isNull then 1
      else cmp next1 next2
    | .functionCall f1 a1, .functionCall f2 a2 =>
      if cmp f1 f2 ≠ 0 then cmp f1 f2 else cmp a1 a2
    | .letExpr v1 e1 c1, .letExpr v2 e2 c2 =>
      if cmp v1 v2 ≠ 0 then
        if cmp e1 e2 ≠ 0 then cmp c1 c2 else cmp e1 e2
      else cmp v1 v2
    | .argumentList a1 next1, .argumentList a2 next2 =>
      if cmp a1 a2 ≠ 0 then cmp a1 a2
      else if next1.isNull ∧ next2.isNull then 0
      else if next1.isNull then -1
      else if next1.isNull then 1
      else cmp next1 next2
    | .operator o1 l1 r1, .operator o2 l2 r2 =>
      if strcmp o1 o2 ≠ 0 then strcmp o1 o2
      else if cmp l1 l2 ≠ 0 then cmp l1 l2
      else cmp r1 r2
    | .productType b1, .productType b2 =>
      if b1.length < b2.length then -1
      else if b1.length > b2.length then 1
      else cmpLoop b1 b2
    | .sumType b1, .sumType b2 =>
      if b1.length < b2.length then -1
      else if b1.length > b2.length then 1
      else cmpLoop b1 b2
    | .tuple b1, .tuple b2 =>
      if b1.length < b2.length then -1
      else if b1.length > b2.length then 1
      else cmpLoop b1 b2
    | .pointer p1, .pointer p2 => strcmp p1 p2
    | .ifExpr i1 t1 e1, .ifExpr i2 t2 e2 =>
      if cmp i1 i2 ≠ 0 then cmp i1 i2
      else if cmp t1 t2 ≠ 0 then cmp t1 t2
      else cmp e1 e2
    | .bracket d1, .bracket d2 => cmp d1 d2
    | .index e1 i1, .index e2 i2 =>
      if cmp e1 e2 ≠ 0 then cmp e1 e2 else cmp i1 i2
    | _, _ => 0

/-- The loop over two arrays of one length. -/
def cmpLoop (b1 b2 : List SyntaxTree) : Int :=
  match b1, b2 with
  | t1 :: b1, t2 :: b2 => if cmp t1 t2 ≠ 0 then cmp t1 t2 else cmpLoop b1 b2
  | _, _ => 0

end

end

/-! ## What is compared -/

/-- What is compared before the children: a text, and a number or how many children there
are. -/
def label : SyntaxTree → String × Int
  | identifier s _ => (s, 0)
  | integer i => ("", i)
  | string s => (s, 0)
  | sequentialDefs bs => ("", bs.length)
  | typeSpec n _ => (n, 0)
  | functionDef n _ _ => (n, 0)
  | parameterList n _ => (n, 0)
  | operator o _ _ => (o, 0)
  | productType bs => ("", bs.length)
  | sumType bs => ("", bs.length)
  | tuple bs => ("", bs.length)
  | pointer p => (p, 0)
  | _ => ("", 0)

/-- The children. -/
def kids : SyntaxTree → List SyntaxTree
  | sequentialDefs bs => bs
  | typeSpec _ d => [d]
  | typeFunction a v => [a, v]
  | functionDef _ p b => [p, b]
  | parameterList _ next => [next]
  | functionCall f a => [f, a]
  | argumentList a next => [a, next]
  | operator _ l r => [l, r]
  | productType bs => bs
  | sumType bs => bs
  | tuple bs => bs
  | ifExpr i t e => [i, t, e]
  | bracket d => [d]
  | index e i => [e, i]
  | letExpr v e c => [v, e, c]
  | _ => []

/-- Induction over the children. -/
@[elab_as_elim]
theorem induct {motive : SyntaxTree → Prop}
    (node : ∀ t, (∀ k ∈ t.kids, motive k) → motive t) (t : SyntaxTree) : motive t := by
  have none {t : SyntaxTree} (ht : t.kids = []) : motive t :=
    node t fun k hk => by rw [ht] at hk; cases hk
  have one {t a : SyntaxTree} (ht : t.kids = [a]) (ha : motive a) : motive t :=
    node t fun k hk => by
      rw [ht] at hk
      exact List.mem_singleton.1 hk ▸ ha
  have two {t a b : SyntaxTree} (ht : t.kids = [a, b]) (ha : motive a) (hb : motive b) :
      motive t :=
    node t fun k hk => by
      rw [ht] at hk
      rcases List.mem_cons.1 hk with h | hk
      · exact h ▸ ha
      · exact List.mem_singleton.1 hk ▸ hb
  have three {t a b c : SyntaxTree} (ht : t.kids = [a, b, c]) (ha : motive a) (hb : motive b)
      (hc : motive c) : motive t :=
    node t fun k hk => by
      rw [ht] at hk
      rcases List.mem_cons.1 hk with h | hk
      · exact h ▸ ha
      · rcases List.mem_cons.1 hk with h | hk
        · exact h ▸ hb
        · exact List.mem_singleton.1 hk ▸ hc
  refine @SyntaxTree.rec motive (fun ts => ∀ k ∈ ts, motive k) (none rfl) (none rfl) (none rfl)
    (fun _ _ => none rfl) (fun _ => none rfl) (fun _ => none rfl) (fun bs h => node _ h)
    (fun _ _ => one rfl) (fun _ _ => two rfl) (fun _ _ _ => two rfl) (fun _ _ => one rfl)
    (fun _ _ => two rfl) (fun _ _ => two rfl) (fun _ _ _ => two rfl) (fun bs h => node _ h)
    (fun bs h => node _ h) (fun bs h => node _ h) (fun _ => none rfl) (fun _ _ _ => three rfl)
    (fun _ => one rfl) (fun _ _ => two rfl) (fun _ _ _ => three rfl) ?_ ?_ t
  · intro k hk
    cases hk
  · intro k ks hk hks x hx
    rcases List.mem_cons.1 hx with h | hx
    · exact h ▸ hk
    · exact hks x hx

def isLet : SyntaxTree → Bool
  | letExpr _ _ _ => true
  | _ => false

section
variable {strcmp : String → String → Int}

theorem type_eq_zero {t : SyntaxTree} : t.type = 0 ↔ t.isNull = true := by
  cases t with
  | null => exact iff_of_true rfl rfl
  | _ => exact iff_of_false (fun h => by cases h) (fun h => by cases h)

theorem cmp_differ {t u : SyntaxTree} (h : t.type ≠ u.type) :
    cmp strcmp t u = threeWay t.type u.type := by
  have ht := type_eq_zero (t := t)
  have hu := type_eq_zero (t := u)
  unfold cmp threeWay
  by_cases hnull : t.isNull = true
  · have := ht.2 hnull
    rw [if_neg (fun hn => h (this.trans (hu.2 hn.2).symm)), if_pos hnull, if_pos (by omega)]
  · rw [if_neg (fun hn => hnull hn.1), if_neg hnull]
    have hpos : t.type ≠ 0 := fun h0 => hnull (ht.1 h0)
    by_cases hnull' : u.isNull = true
    · have := hu.2 hnull'
      rw [if_pos hnull', if_neg (by omega), if_pos (by omega)]
    · rw [if_neg hnull']
      by_cases hlt : t.type < u.type
      · rw [if_pos hlt, if_pos (by omega)]
      · rw [if_neg hlt, if_pos (by omega), if_neg (by omega), if_pos (by omega)]

theorem cmpLoop_eq (b1 b2 : List SyntaxTree) :
    sign (cmpLoop strcmp b1 b2) = lexi (fun a b => sign (cmp strcmp a b)) b1 b2 := by
  induction b1 generalizing b2 with
  | nil =>
    unfold cmpLoop
    rfl
  | cons t b1 ih =>
    cases b2 with
    | nil =>
      unfold cmpLoop
      rfl
    | cons u b2 =>
      unfold cmpLoop
      rw [sign_ite, ih]
      rfl

/-- The lengths are compared before the elements. -/
theorem sign_length (m n : Nat) (x : Int) :
    sign (if m < n then -1 else if m > n then 1 else x) =
      (sign (threeWay m n)).then (sign x) := by
  unfold threeWay
  by_cases hlt : m < n
  · rw [if_pos hlt, if_pos (show (m : Int) < n by omega)]
    rfl
  · rw [if_neg hlt, if_neg (show ¬ (m : Int) < n by omega)]
    by_cases hgt : m > n
    · rw [if_pos hgt, if_pos (show (m : Int) > n by omega)]
      rfl
    · rw [if_neg hgt, if_neg (show ¬ (m : Int) > n by omega)]
      rfl

/-- The last parameter or argument is compared as any other: a test made twice stands where one
of the other list was meant, but `NULL` comes first anyhow. -/
theorem cmp_next (n1 n2 : SyntaxTree) :
    (if n1.isNull ∧ n2.isNull then 0
      else if n1.isNull then -1
      else if n1.isNull then 1
      else cmp strcmp n1 n2) = cmp strcmp n1 n2 := by
  by_cases h1 : n1.isNull = true
  · by_cases h2 : n2.isNull = true
    · rw [if_pos ⟨h1, h2⟩]
      unfold cmp
      rw [if_pos ⟨h1, h2⟩]
    · rw [if_neg (fun h => h2 h.2), if_pos h1]
      unfold cmp
      rw [if_neg (fun h => h2 h.2), if_pos h1]
  · rw [if_neg (fun h => h1 h.1), if_neg h1, if_neg h1]

/-- Of two trees of one type the labels are compared, then the children. -/
theorem cmp_same (hc : Conforming strcmp) {t u : SyntaxTree} (h : t.type = u.type)
    (hlet : t.isLet = false) :
    sign (cmp strcmp t u) = ((sign (strcmp t.label.1 u.label.1)).then
      (sign (threeWay t.label.2 u.label.2))).then
        (lexi (fun a b => sign (cmp strcmp a b)) t.kids u.kids) := by
  have hempty := hc.self ""
  have hthen (o : Ordering) : o.then .eq = o := by cases o <;> rfl
  have hleaf (s s' : String) :
      ((sign (strcmp s s')).then (sign (threeWay 0 0))).then .eq = sign (strcmp s s') := by
    rw [hthen]
    exact hthen _
  -- where there is nothing but children
  have hkids (o : Ordering) :
      ((sign (strcmp "" "")).then (sign (threeWay 0 0))).then o = o := by
    rw [hempty]
    rfl
  -- where there is a text and children
  have htext (s s' : String) (o : Ordering) :
      ((sign (strcmp s s')).then (sign (threeWay 0 0))).then o = (sign (strcmp s s')).then o := by
    rw [show sign (threeWay 0 0) = .eq from rfl, hthen]
  cases t with
  | letExpr => cases hlet
  | null => cases u with
    | null =>
      exact (hkids .eq).symm
    | _ => cases h
  | blank => cases u with
    | blank =>
      exact (hkids .eq).symm
    | _ => cases h
  | nil => cases u with
    | nil =>
      exact (hkids .eq).symm
    | _ => cases h
  | integer i => cases u with
    | integer i' =>
      show sign (if i < i' then -1 else if i = i' then 0 else 1) =
        ((sign (strcmp "" "")).then (sign (threeWay i i'))).then .eq
      rw [hempty, hthen]
      show _ = sign (threeWay i i')
      unfold threeWay
      by_cases hlt : i < i'
      · rw [if_pos hlt, if_pos hlt]
      · by_cases heq : i = i'
        · rw [if_neg hlt, if_neg hlt, if_pos heq, if_neg (by omega)]
        · rw [if_neg hlt, if_neg hlt, if_neg heq, if_pos (by omega)]
    | _ => cases h
  | identifier s id => cases u with
    | identifier s' id' =>
      exact (hleaf s s').symm
    | _ => cases h
  | string s => cases u with
    | string s' =>
      exact (hleaf s s').symm
    | _ => cases h
  | pointer s => cases u with
    | pointer s' =>
      exact (hleaf s s').symm
    | _ => cases h
  | sequentialDefs bs => cases u with
    | sequentialDefs bs' =>
      show sign (if bs.length < bs'.length then -1
        else if bs.length > bs'.length then 1 else cmpLoop strcmp bs bs') = _
      rw [sign_length, cmpLoop_eq]
      show _ = ((sign (strcmp "" "")).then _).then _
      rw [hempty]
      rfl
    | _ => cases h
  | productType bs => cases u with
    | productType bs' =>
      show sign (if bs.length < bs'.length then -1
        else if bs.length > bs'.length then 1 else cmpLoop strcmp bs bs') = _
      rw [sign_length, cmpLoop_eq]
      show _ = ((sign (strcmp "" "")).then _).then _
      rw [hempty]
      rfl
    | _ => cases h
  | sumType bs => cases u with
    | sumType bs' =>
      show sign (if bs.length < bs'.length then -1
        else if bs.length > bs'.length then 1 else cmpLoop strcmp bs bs') = _
      rw [sign_length, cmpLoop_eq]
      show _ = ((sign (strcmp "" "")).then _).then _
      rw [hempty]
      rfl
    | _ => cases h
  | tuple bs => cases u with
    | tuple bs' =>
      show sign (if bs.length < bs'.length then -1
        else if bs.length > bs'.length then 1 else cmpLoop strcmp bs bs') = _
      rw [sign_length, cmpLoop_eq]
      show _ = ((sign (strcmp "" "")).then _).then _
      rw [hempty]
      rfl
    | _ => cases h
  | typeSpec n d => cases u with
    | typeSpec n' d' =>
      show sign (if strcmp n n' ≠ 0 then strcmp n n' else cmp strcmp d d') = _
      rw [sign_ite]
      show _ = ((sign (strcmp n n')).then (sign (threeWay 0 0))).then
        ((sign (cmp strcmp d d')).then .eq)
      rw [htext, hthen]
    | _ => cases h
  | typeFunction a v => cases u with
    | typeFunction a' v' =>
      show sign (if cmp strcmp a a' ≠ 0 then cmp strcmp a a'
        else if cmp strcmp v v' ≠ 0 then cmp strcmp v v' else 0) = _
      rw [sign_ite, sign_ite]
      exact (hkids _).symm
    | _ => cases h
  | functionDef n p b => cases u with
    | functionDef n' p' b' =>
      show sign (if strcmp n n' ≠ 0 then strcmp n n'
        else if cmp strcmp p p' ≠ 0 then cmp strcmp p p' else cmp strcmp b b') = _
      rw [sign_ite, sign_ite]
      show _ = ((sign (strcmp n n')).then (sign (threeWay 0 0))).then
        ((sign (cmp strcmp p p')).then ((sign (cmp strcmp b b')).then .eq))
      rw [htext, hthen (sign (cmp strcmp b b'))]
    | _ => cases h
  | parameterList n next => cases u with
    | parameterList n' next' =>
      show sign (if strcmp n n' ≠ 0 then strcmp n n'
        else if next.isNull ∧ next'.isNull then 0
        else if next.isNull then -1
        else if next.isNull then 1
        else cmp strcmp next next') = _
      rw [cmp_next, sign_ite]
      show _ = ((sign (strcmp n n')).then (sign (threeWay 0 0))).then
        ((sign (cmp strcmp next next')).then .eq)
      rw [htext, hthen]
    | _ => cases h
  | functionCall f a => cases u with
    | functionCall f' a' =>
      show sign (if cmp strcmp f f' ≠ 0 then cmp strcmp f f' else cmp strcmp a a') = _
      rw [sign_ite, ← hthen (sign (cmp strcmp a a'))]
      exact (hkids _).symm
    | _ => cases h
  | argumentList a next => cases u with
    | argumentList a' next' =>
      show sign (if cmp strcmp a a' ≠ 0 then cmp strcmp a a'
        else if next.isNull ∧ next'.isNull then 0
        else if next.isNull then -1
        else if next.isNull then 1
        else cmp strcmp next next') = _
      rw [cmp_next, sign_ite, ← hthen (sign (cmp strcmp next next'))]
      exact (hkids _).symm
    | _ => cases h
  | operator o l r => cases u with
    | operator o' l' r' =>
      show sign (if strcmp o o' ≠ 0 then strcmp o o'
        else if cmp strcmp l l' ≠ 0 then cmp strcmp l l' else cmp strcmp r r') = _
      rw [sign_ite, sign_ite]
      show _ = ((sign (strcmp o o')).then (sign (threeWay 0 0))).then
        ((sign (cmp strcmp l l')).then ((sign (cmp strcmp r r')).then .eq))
      rw [htext, hthen (sign (cmp strcmp r r'))]
    | _ => cases h
  | ifExpr i t e => cases u with
    | ifExpr i' t' e' =>
      show sign (if cmp strcmp i i' ≠ 0 then cmp strcmp i i'
        else if cmp strcmp t t' ≠ 0 then cmp strcmp t t' else cmp strcmp e e') = _
      rw [sign_ite, sign_ite, ← hthen (sign (cmp strcmp e e'))]
      exact (hkids _).symm
    | _ => cases h
  | bracket d => cases u with
    | bracket d' =>
      show sign (cmp strcmp d d') = _
      rw [← hthen (sign (cmp strcmp d d'))]
      exact (hkids _).symm
    | _ => cases h
  | index e i => cases u with
    | index e' i' =>
      show sign (if cmp strcmp e e' ≠ 0 then cmp strcmp e e' else cmp strcmp i i') = _
      rw [sign_ite, ← hthen (sign (cmp strcmp i i'))]
      exact (hkids _).symm
    | _ => cases h

theorem cmp_let (v e c v' e' c' : SyntaxTree) :
    cmp strcmp (letExpr v e c) (letExpr v' e' c') =
      if cmp strcmp v v' ≠ 0 then
        if cmp strcmp e e' ≠ 0 then cmp strcmp c c' else cmp strcmp e e'
      else cmp strcmp v v' := by
  rfl

/-- The types are compared before anything else. -/
theorem cmp_type (t u : SyntaxTree) :
    sign (cmp strcmp t u) = (sign (threeWay t.type u.type)).then (sign (cmp strcmp t u)) := by
  by_cases h : t.type = u.type
  · rw [h, sign_eq.2 (threeWay_eq.2 rfl)]
    rfl
  · rw [cmp_differ h]
    cases sign (threeWay t.type u.type) <;> rfl

end

/-! ## Trees that are the same to the comparison -/

/-- The comparison finds nothing between the trees. -/
inductive Alike : SyntaxTree → SyntaxTree → Prop
  | letVar (v e c v' e' c' : SyntaxTree) : Alike v v' → Alike (letExpr v e c) (letExpr v' e' c')
  | letExpr (v e c v' e' c' : SyntaxTree) : Alike e e' → Alike (letExpr v e c) (letExpr v' e' c')
  | letCode (v e c v' e' c' : SyntaxTree) : Alike c c' → Alike (letExpr v e c) (letExpr v' e' c')
  | node (t u : SyntaxTree) : t.type = u.type → t.isLet = false → t.label = u.label →
    List.Forall₂ Alike t.kids u.kids → Alike t u

theorem Alike.type {t u : SyntaxTree} (h : Alike t u) : t.type = u.type := by
  cases h with
  | letVar => rfl
  | letExpr => rfl
  | letCode => rfl
  | node _ _ htype => exact htype

theorem isLet_type {t : SyntaxTree} : t.isLet = true ↔ t.type = 21 := by
  cases t with
  | letExpr v e c => exact iff_of_true rfl rfl
  | _ => exact iff_of_false (fun h => by cases h) (fun h => by cases h)

theorem isLet_iff {t : SyntaxTree} : t.isLet = true ↔ ∃ v e c, t = .letExpr v e c := by
  cases t with
  | letExpr v e c => exact iff_of_true rfl ⟨v, e, c, rfl⟩
  | _ => exact iff_of_false (fun h => by cases h) (fun ⟨_, _, _, h⟩ => by cases h)

theorem kids_length {t u : SyntaxTree} (h : t.type = u.type) (hlabel : t.label = u.label) :
    t.kids.length = u.kids.length := by
  cases t <;> cases u <;> first | rfl | exact Int.ofNat.inj (congrArg Prod.snd hlabel) | cases h

theorem Alike.refl (t : SyntaxTree) : Alike t t := by
  induction t using SyntaxTree.induct with
  | node t ih =>
    cases hlet : t.isLet with
    | true =>
      obtain ⟨v, e, c, rfl⟩ := isLet_iff.1 hlet
      exact .letVar _ _ _ _ _ _ (ih v (List.mem_cons_self ..))
    | false => exact .node t t rfl hlet rfl (List.forall₂_same.2 ih)

section
variable {strcmp : String → String → Int}

theorem cmp_eq_zero_iff (hc : Conforming strcmp) (t u : SyntaxTree) :
    cmp strcmp t u = 0 ↔ Alike t u := by
  induction t using SyntaxTree.induct generalizing u with
  | node t ih =>
    by_cases htype : t.type = u.type
    · cases hlet : t.isLet with
      | true =>
        have hlet' : u.isLet = true := isLet_type.2 (htype ▸ isLet_type.1 hlet)
        obtain ⟨v, e, c, rfl⟩ := isLet_iff.1 hlet
        obtain ⟨v', e', c', rfl⟩ := isLet_iff.1 hlet'
        have hv := ih v (List.mem_cons_self ..) v'
        have he := ih e (List.mem_cons_of_mem _ (List.mem_cons_self ..)) e'
        have hcode := ih c (List.mem_cons_of_mem _ (List.mem_cons_of_mem _
          (List.mem_cons_self ..))) c'
        rw [cmp_let]
        constructor
        · intro h
          by_cases hv0 : cmp strcmp v v' = 0
          · exact .letVar _ _ _ _ _ _ (hv.1 hv0)
          · rw [if_pos hv0] at h
            by_cases he0 : cmp strcmp e e' = 0
            · exact .letExpr _ _ _ _ _ _ (he.1 he0)
            · rw [if_pos he0] at h
              exact .letCode _ _ _ _ _ _ (hcode.1 h)
        · intro h
          by_cases hv0 : cmp strcmp v v' = 0
          · rw [if_neg (not_not_intro hv0), hv0]
          · rw [if_pos hv0]
            by_cases he0 : cmp strcmp e e' = 0
            · rw [if_neg (not_not_intro he0), he0]
            · rw [if_pos he0]
              cases h with
              | letVar _ _ _ _ _ _ h => exact absurd (hv.2 h) hv0
              | letExpr _ _ _ _ _ _ h => exact absurd (he.2 h) he0
              | letCode _ _ _ _ _ _ h => exact hcode.2 h
              | node _ _ _ h => cases h
      | false =>
        rw [← sign_eq, cmp_same hc htype hlet, Ordering.then_eq_eq, Ordering.then_eq_eq, sign_eq,
          sign_eq, hc.zero, threeWay_eq]
        have hlexi (hlabel : t.label = u.label) :
            lexi (fun a b => sign (cmp strcmp a b)) t.kids u.kids = .eq ↔
              List.Forall₂ Alike t.kids u.kids :=
          lexi_eq_iff (fun k hk b => sign_eq.trans (ih k hk b)) (kids_length htype hlabel)
        constructor
        · intro ⟨hlabel, hkids⟩
          have hlabel := Prod.ext hlabel.1 hlabel.2
          exact .node t u htype hlet hlabel ((hlexi hlabel).1 hkids)
        · intro h
          cases h with
          | node _ _ _ _ hlabel hkids =>
            exact ⟨⟨congrArg Prod.fst hlabel, congrArg Prod.snd hlabel⟩, (hlexi hlabel).2 hkids⟩
          | _ => cases hlet
    · refine iff_of_false ?_ fun h => htype h.type
      rw [cmp_differ htype, threeWay_eq]
      omega

theorem cmp_swap (hc : Conforming strcmp) (t u : SyntaxTree) :
    sign (cmp strcmp u t) = (sign (cmp strcmp t u)).swap := by
  induction t using SyntaxTree.induct generalizing u with
  | node t ih =>
    by_cases htype : t.type = u.type
    · cases hlet : t.isLet with
      | true =>
        have hlet' : u.isLet = true := isLet_type.2 (htype ▸ isLet_type.1 hlet)
        obtain ⟨v, e, c, rfl⟩ := isLet_iff.1 hlet
        obtain ⟨v', e', c', rfl⟩ := isLet_iff.1 hlet'
        have hzero {a b : SyntaxTree} (h : sign (cmp strcmp b a) = (sign (cmp strcmp a b)).swap) :
            cmp strcmp b a = 0 ↔ cmp strcmp a b = 0 := by
          rw [← sign_eq, h, Ordering.swap_eq_eq, sign_eq]
        have hv := hzero (ih v (List.mem_cons_self ..) v')
        have he := hzero (ih e (List.mem_cons_of_mem _ (List.mem_cons_self ..)) e')
        have hcode := ih c (List.mem_cons_of_mem _ (List.mem_cons_of_mem _
          (List.mem_cons_self ..))) c'
        rw [cmp_let, cmp_let]
        by_cases hv0 : cmp strcmp v v' = 0
        · rw [if_neg (not_not_intro hv0), if_neg (not_not_intro (hv.2 hv0)), hv.2 hv0, hv0]
          rfl
        · rw [if_pos hv0, if_pos (fun h => hv0 (hv.1 h))]
          by_cases he0 : cmp strcmp e e' = 0
          · rw [if_neg (not_not_intro he0), if_neg (not_not_intro (he.2 he0)), he.2 he0, he0]
            rfl
          · rw [if_pos he0, if_pos (fun h => he0 (he.1 h))]
            exact hcode
      | false =>
        have hlet' : u.isLet = false := by
          cases hu : u.isLet with
          | false => rfl
          | true =>
            rw [isLet_type.2 (htype.trans (isLet_type.1 hu))] at hlet
            cases hlet
        rw [cmp_same hc htype hlet, cmp_same hc htype.symm hlet',
          hc.orders.swap t.label.1 u.label.1, threeWay_orders.swap t.label.2 u.label.2,
          @lexi_swap _ _ t.kids u.kids fun k hk b => ih k hk b, Ordering.swap_then,
          Ordering.swap_then]
    · rw [cmp_differ htype, cmp_differ (Ne.symm htype)]
      exact threeWay_orders.swap (t.type : Int) u.type

end

/-! ## Trees that are put in order -/

/-- The comparison of the trees gets to no two `let` of which only a part differs. -/
inductive Settled : SyntaxTree → SyntaxTree → Prop
  | differ (t u : SyntaxTree) : t.type ≠ u.type → Settled t u
  | letSame (v e c : SyntaxTree) : Settled (letExpr v e c) (letExpr v e c)
  | letApart (v e c v' e' c' : SyntaxTree) : ¬ Alike v v' → ¬ Alike e e' → Settled c c' →
    Settled (letExpr v e c) (letExpr v' e' c')
  | label (t u : SyntaxTree) : t.isLet = false → t.label ≠ u.label → Settled t u
  | kids (t u : SyntaxTree) : t.isLet = false → Along Settled Alike t.kids u.kids → Settled t u

section
variable {strcmp : String → String → Int}

/-- Two `let` that are put in order are the same, or lie as their bodies do. -/
theorem Settled.let (hc : Conforming strcmp) {v e c v' e' c' : SyntaxTree}
    (h : Settled (letExpr v e c) (letExpr v' e' c')) :
    letExpr v e c = letExpr v' e' c' ∨
      Settled c c' ∧
        cmp strcmp (letExpr v e c) (letExpr v' e' c') = cmp strcmp c c' := by
  cases h with
  | differ _ _ h => exact absurd rfl h
  | letSame => exact Or.inl rfl
  | letApart _ _ _ _ _ _ hv he hcode =>
    refine Or.inr ⟨hcode, ?_⟩
    rw [cmp_let, if_pos (fun h => hv ((cmp_eq_zero_iff hc _ _).1 h)),
      if_pos (fun h => he ((cmp_eq_zero_iff hc _ _).1 h))]
  | label _ _ h => cases h
  | kids _ _ h => cases h

theorem Settled.along {t u : SyntaxTree} (h : Settled t u) (htype : t.type = u.type)
    (hlet : t.isLet = false) (hlabel : t.label = u.label) :
    Along Settled Alike t.kids u.kids := by
  cases h with
  | differ _ _ h => exact absurd htype h
  | letSame => cases hlet
  | letApart => cases hlet
  | label _ _ _ h => exact absurd hlabel h
  | kids _ _ _ h => exact h

theorem cmp_self (hc : Conforming strcmp) (t : SyntaxTree) : cmp strcmp t t = 0 :=
  (cmp_eq_zero_iff hc t t).2 (.refl t)

theorem cmp_coherent (hc : Conforming strcmp) {t u w : SyntaxTree} (htu : Settled t u)
    (huw : Settled u w) (htw : Settled t w) :
    Coherent (sign (cmp strcmp t u)) (sign (cmp strcmp u w)) (sign (cmp strcmp t w)) := by
  induction t using SyntaxTree.induct generalizing u w with
  | node t ih =>
    rw [cmp_type t u, cmp_type u w, cmp_type t w]
    refine (threeWay_orders.coherent (t.type : Int) u.type w.type).then fun h1 h2 _ => ?_
    have h1 : t.type = u.type := Int.ofNat.inj (threeWay_eq.1 (sign_eq.1 h1))
    have h2 : u.type = w.type := Int.ofNat.inj (threeWay_eq.1 (sign_eq.1 h2))
    cases hlet : t.isLet with
    | true =>
      obtain ⟨v, e, c, rfl⟩ := isLet_iff.1 hlet
      obtain ⟨v', e', c', rfl⟩ := isLet_iff.1 (isLet_type.2 (h1 ▸ isLet_type.1 hlet))
      obtain ⟨v'', e'', c'', rfl⟩ :=
        isLet_iff.1 (isLet_type.2 (h2 ▸ h1 ▸ isLet_type.1 hlet))
      rcases htu.let hc with h | ⟨htu', htu⟩
      · rw [← h, sign_eq.2 (cmp_self hc _)]
        exact coherent_left _
      · rcases huw.let hc with h | ⟨huw', huw⟩
        · rw [← h, sign_eq.2 (cmp_self hc _)]
          exact coherent_right _
        · rcases htw.let hc with h | ⟨htw', htw⟩
          · rw [← h, sign_eq.2 (cmp_self hc _), cmp_swap hc (letExpr v e c)]
            exact coherent_outer _
          · rw [htu, huw, htw]
            exact ih c (List.mem_cons_of_mem _ (List.mem_cons_of_mem _ (List.mem_cons_self ..)))
              htu' huw' htw'
    | false =>
      have hlet' : u.isLet = false := by
        rw [Bool.eq_false_iff, Ne, isLet_type] at hlet ⊢
        rwa [← h1]
      rw [cmp_same hc h1 hlet, cmp_same hc h2 hlet', cmp_same hc (h1.trans h2) hlet]
      have hlabels := (hc.orders.coherent t.label.1 u.label.1 w.label.1).then fun _ _ _ =>
        threeWay_orders.coherent t.label.2 u.label.2 w.label.2
      refine hlabels.then fun ho ho' _ => ?_
      have heq {a b : SyntaxTree} (h : (sign (strcmp a.label.1 b.label.1)).then
          (sign (threeWay a.label.2 b.label.2)) = .eq) : a.label = b.label := by
        rw [Ordering.then_eq_eq, sign_eq, sign_eq, hc.zero, threeWay_eq] at h
        exact Prod.ext h.1 h.2
      exact lexi_coherent (c := fun a b => sign (cmp strcmp a b))
        (fun k hk b d hkb hbd hkd => ih k hk hkb hbd hkd)
        (fun a b h => (cmp_eq_zero_iff hc a b).1 (sign_eq.1 h)) (htu.along h1 hlet (heq ho))
        (huw.along h2 hlet' (heq ho')) (htw.along (h1.trans h2) hlet ((heq ho).trans (heq ho')))
        (kids_length h1 (heq ho)) (kids_length h2 (heq ho'))

end

end SyntaxTree

end PyLinda
