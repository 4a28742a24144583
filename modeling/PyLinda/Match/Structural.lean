import PyLinda.TupleContainer

/-!
# Matching data

What `doesMatch_notypes` does with data of any shape, nil included, and a template of such
data and formals. It takes the two apart in order, and the first place where they part
decides: some places it refuses, at others it raises something else.
-/

namespace PyLinda

namespace Value

/-- nil, or an atom. -/
def IsLeaf (v : Value) : Prop := v = .nil ∨ v.IsAtom

/-- Leaves and nested tuples of them. -/
inductive IsDatum : Value → Prop where
  | leaf {v : Value} : v.IsLeaf → v.IsDatum
  | tuple {vs : List Value} : (∀ v ∈ vs, v.IsDatum) → (Value.tuple vs).IsDatum

/-- A formal is a name, or `Nil`. -/
def IsFormal (v : Value) : Prop :=
  ∃ name, (∃ word id, v = .type ⟨name, .identifier word id⟩) ∨ ∃ word, v = .type ⟨name, .nil word⟩

/-- Leaves, formals and nested tuples of them. -/
inductive IsTemplate : Value → Prop where
  | leaf {v : Value} : v.IsLeaf → v.IsTemplate
  | formal {v : Value} : v.IsFormal → v.IsTemplate
  | tuple {vs : List Value} : (∀ v ∈ vs, v.IsTemplate) → (Value.tuple vs).IsTemplate

/-- The type is the one of the leaf. -/
def Names (v : Value) (t : TypeVal) : Prop :=
  v.IsAtom ∧ (v.type?.bind TypeVal.id?) = t.id? ∨ v = .nil ∧ ∃ word, t.typeSpec = .nil word

end Value

mutual

/-- The template has the shape of the datum, and each of its leaves is the leaf there or a
formal of its type. -/
def Value.Conforms : Value → Value → Prop
  | .tuple vs, .tuple ws => Conform vs ws
  | .tuple _, _ => False
  | v, .type t => v.Names t
  | v, w => v = w

def Conform : List Value → List Value → Prop
  | [], [] => True
  | v :: vs, w :: ws => v.Conforms w ∧ Conform vs ws
  | _, _ => False

end

mutual

/-- No nil at any depth. -/
def Value.NoNil : Value → Prop
  | .nil => False
  | .tuple vs => NoNils vs
  | _ => True

def NoNils : List Value → Prop
  | [] => True
  | v :: vs => v.NoNil ∧ NoNils vs

end

mutual

/-- One-element tuples around a tuple of another length. -/
def Value.Hollow : Value → Prop
  | .tuple vs => vs.length ≠ 1 ∨ HollowHead vs
  | _ => False

def HollowHead : List Value → Prop
  | [] => False
  | v :: _ => v.Hollow

end

mutual

/-- What the matcher takes for a match: an empty tuple has the length of an empty string, and
of a type whose `length` happens to be 0. -/
def Value.TakenFor : Value → Value → Prop
  | .tuple vs, .tuple ws => TakenForAll vs ws
  | .tuple vs, .string s => vs = [] ∧ s = ""
  | .tuple vs, .type t => vs = [] ∧ t.typeSpec.length = 0
  | .tuple _, _ => False
  | .nil, _ => False
  | v, .type t => v.Names t
  | v, w => v = w

def TakenForAll : List Value → List Value → Prop
  | [], [] => True
  | v :: vs, w :: ws => v.TakenFor w ∧ TakenForAll vs ws
  | _, _ => False

end

mutual

/-- The first place where the two part is one that the matcher refuses: two leaves that
differ, none of them nil, a leaf and a formal of another type, tuples of different lengths, a
tuple and something else that has a length, and another one. -/
def Value.PartsFrom : Value → Value → Prop
  | .tuple vs, .tuple ws => vs.length ≠ ws.length ∨ PartFrom vs ws
  | .tuple vs, .string s => vs.length ≠ s.utf8ByteSize ∨ HollowHead vs
  | .tuple vs, .type t => (vs.length : Int) ≠ t.typeSpec.length
  | .tuple _, _ => False
  | .nil, _ => False
  | _, .nil => False
  | _, .tuple _ => False
  | v, .type t => t.id?.isSome ∧ ¬ v.Names t
  | v, w => v ≠ w

def PartFrom : List Value → List Value → Prop
  | v :: vs, w :: ws => v.PartsFrom w ∨ v.TakenFor w ∧ PartFrom vs ws
  | _, _ => False

end

/-- How the matcher ends on two values: it succeeds, refuses, or raises something else. -/
structure Concludes (r : Except PyExc Unit) (taken parts : Prop) : Prop where
  ok : r = .ok () ↔ taken
  refused : r = .error .noTupleMatch ↔ parts

theorem Concludes.of_ok {taken parts : Prop} (ht : taken) (hp : ¬ parts) : Concludes (.ok ()) taken parts :=
  ⟨iff_of_true rfl ht, iff_of_false (fun h => by cases h) hp⟩

theorem Concludes.of_refused {taken parts : Prop} (ht : ¬ taken) (hp : parts) :
    Concludes (.error .noTupleMatch) taken parts :=
  ⟨iff_of_false (fun h => by cases h) ht, iff_of_true rfl hp⟩

theorem Concludes.of_error {taken parts : Prop} {e : PyExc} (he : e ≠ .noTupleMatch) (ht : ¬ taken)
    (hp : ¬ parts) : Concludes (.error e) taken parts :=
  ⟨iff_of_false (fun h => by cases h) ht, iff_of_false (fun h => he (Except.error.inj h)) hp⟩

/-! ## Leaves -/

/-- An atom has a type with a name. -/
theorem Value.IsAtom.typeId {v : Value} (h : v.IsAtom) :
    ∃ t i, v.type? = some t ∧ t.id? = some i := by
  cases v with
  | boolean b => exact ⟨boolType, "bool", rfl, rfl⟩
  | integer i => exact ⟨longType, "int64", rfl, rfl⟩
  | uinteger n => exact ⟨longType, "int64", rfl, rfl⟩
  | string s => exact ⟨stringType, "string", rfl, rfl⟩
  | tsref i => exact ⟨tupleSpaceType, "tuplespace", rfl, rfl⟩
  | _ => exact h.elim

theorem doesMatchLeaf_formal {v : Value} (hv : v.IsAtom) (t : TypeVal) :
    Concludes (doesMatchLeaf v (.val (.type t))) (v.Names t) (t.id?.isSome ∧ ¬ v.Names t) := by
  obtain ⟨tv, i, htv, hi⟩ := hv.typeId
  have hnames : v.Names t ↔ t.id? = some i := by
    unfold Value.Names
    rw [htv, Option.bind_some, hi]
    constructor
    · rintro (⟨_, h⟩ | ⟨rfl, _⟩)
      · exact h.symm
      · exact hv.elim
    · exact fun h => Or.inl ⟨hv, h.symm⟩
  cases ht : t.id? with
  | none =>
    simp only [doesMatchLeaf, PyLinda.compare, htv, Option.bind_some, hi, ht]
    exact .of_error (by decide) (fun h => by rw [hnames, ht] at h; cases h) (fun h => by cases h.1)
  | some j =>
    simp only [doesMatchLeaf, PyLinda.compare, htv, Option.bind_some, hi, ht]
    by_cases hij : i = j
    · subst hij
      simp only [decide_true]
      exact .of_ok (hnames.2 ht) (fun h => h.2 (hnames.2 ht))
    · have hne : ¬ v.Names t := by
        rw [hnames, ht]
        exact fun h => hij (Option.some.inj h).symm
      simp only [hij, decide_false]
      exact .of_refused hne ⟨rfl, hne⟩

/-- The type of nil has no name to compare. -/
theorem doesMatchLeaf_nil (w : Value) :
    doesMatchLeaf .nil (.val w) = .error .assertionError := by
  cases w <;> rfl

/-- An atom against a value whose type has no name. -/
theorem doesMatchLeaf_untyped {v w : Value} (hv : v.IsAtom) (hw : w.isType = false)
    (hid : w.type?.bind TypeVal.id? = none) :
    doesMatchLeaf v (.val w) = .error .assertionError := by
  obtain ⟨tv, i, htv, hi⟩ := hv.typeId
  cases w with
  | type t => cases hw
  | _ => simp_all only [doesMatchLeaf, PyLinda.compare, Option.bind_some]

/-! ## Tuples -/

/-- A character is never matched, and refused by what is hollow only. -/
theorem doesMatchValue_char {v : Value} (hv : v.IsDatum) (ch : UInt8) :
    Concludes (doesMatchValue v (.chr ch)) False v.Hollow := by
  induction hv with
  | @leaf v h =>
    have hleaf : doesMatchValue v (.chr ch) = .error .attributeError ∧ ¬ v.Hollow := by
      rcases h with rfl | h
      · exact ⟨rfl, id⟩
      · cases v with
        | boolean _ | integer _ | uinteger _ | string _ | tsref _ => exact ⟨rfl, id⟩
        | _ => exact h.elim
    rw [hleaf.1]
    exact .of_error (by decide) id hleaf.2
  | @tuple vs _ ih =>
    cases vs with
    | nil => exact .of_refused id (Or.inl (by decide))
    | cons u us =>
      cases us with
      | nil =>
        have hrec : doesMatchValue (.tuple [u]) (.chr ch) = doesMatchValue u (.chr ch) := by
          cases hu : doesMatchValue u (.chr ch) <;>
            simp [doesMatchValue, Templ.len, Templ.items, doesMatchZip, hu]
        have hhollow : (Value.tuple [u]).Hollow ↔ u.Hollow := by
          show ([u].length ≠ 1 ∨ u.Hollow) ↔ u.Hollow
          exact or_iff_right (fun h => h rfl)
        rw [hrec]
        exact ⟨(ih u List.mem_cons_self).ok, (ih u List.mem_cons_self).refused.trans hhollow.symm⟩
      | cons u' us =>
        have hlen : ((u :: u' :: us).length : Int) ≠ 1 := by
          simp only [List.length_cons]
          omega
        have href : doesMatchValue (.tuple (u :: u' :: us)) (.chr ch) = .error .noTupleMatch := by
          unfold doesMatchValue Templ.len
          simp only [if_pos hlen]
        rw [href]
        exact .of_refused id (Or.inl (by simp))

/-- A sequence of elements, once each of them is known. -/
theorem doesMatchZip_ends {vs ws : List Value}
    (h : ∀ v ∈ vs, ∀ w ∈ ws, Concludes (doesMatchValue v (.val w)) (v.TakenFor w) (v.PartsFrom w))
    (hlen : vs.length = ws.length) :
    Concludes (doesMatchZip vs (ws.map .val)) (TakenForAll vs ws) (PartFrom vs ws) := by
  induction vs generalizing ws with
  | nil =>
    cases ws with
    | nil => exact .of_ok trivial id
    | cons w ws => cases hlen
  | cons v vs ih =>
    cases ws with
    | nil => cases hlen
    | cons w ws =>
      have hv := h v List.mem_cons_self w List.mem_cons_self
      have hvs := ih (fun v hv w hw => h v (List.mem_cons_of_mem _ hv) w (List.mem_cons_of_mem _ hw))
        (Nat.succ.inj hlen)
      show Concludes _ (v.TakenFor w ∧ TakenForAll vs ws)
        (v.PartsFrom w ∨ v.TakenFor w ∧ PartFrom vs ws)
      rw [List.map_cons, doesMatchZip]
      cases hr : doesMatchValue v (.val w) with
      | ok _ =>
        have ht : v.TakenFor w := hv.ok.1 hr
        have hp : ¬ v.PartsFrom w := fun hp => by
          rw [hv.refused.2 hp] at hr
          cases hr
        exact ⟨hvs.ok.trans (and_iff_right ht).symm,
          hvs.refused.trans ((and_iff_right ht).symm.trans (or_iff_right hp).symm)⟩
      | error e =>
        have ht : ¬ v.TakenFor w := fun ht => by
          rw [hv.ok.2 ht] at hr
          cases hr
        rw [hr] at hv
        exact ⟨iff_of_false (fun h => by cases h) (fun h => ht h.1),
          hv.refused.trans (or_iff_left fun h => ht h.1).symm⟩

/-- A tuple against a tuple. -/
theorem doesMatchValue_tuples {vs ws : List Value}
    (h : ∀ v ∈ vs, ∀ w ∈ ws, Concludes (doesMatchValue v (.val w)) (v.TakenFor w) (v.PartsFrom w)) :
    Concludes (doesMatchValue (.tuple vs) (.val (.tuple ws))) (TakenForAll vs ws)
      (vs.length ≠ ws.length ∨ PartFrom vs ws) := by
  by_cases hlen : vs.length = ws.length
  · have hzip := doesMatchZip_ends h hlen
    have hrec : doesMatchValue (.tuple vs) (.val (.tuple ws)) =
        doesMatchZip vs (ws.map .val) := by
      cases vs with
      | nil =>
        cases ws with
        | nil => rfl
        | cons w ws => cases hlen
      | cons v vs =>
        simp [doesMatchValue, Templ.len, Value.len, Templ.items, hlen]
    rw [hrec]
    exact ⟨hzip.ok, hzip.refused.trans (or_iff_right (not_not_intro hlen)).symm⟩
  · have href : doesMatchValue (.tuple vs) (.val (.tuple ws)) = .error .noTupleMatch := by
      have hne : (vs.length : Int) ≠ ws.length := by omega
      simp only [doesMatchValue, Templ.len, Value.len, if_pos hne]
    rw [href]
    refine .of_refused (fun ht => hlen ?_) (Or.inl hlen)
    clear h href hlen
    induction vs generalizing ws with
    | nil =>
      cases ws with
      | nil => rfl
      | cons w ws => exact ht.elim
    | cons v vs ih =>
      cases ws with
      | nil => exact ht.elim
      | cons w ws => exact congrArg Nat.succ (ih ht.2)

/-- A tuple against a string. -/
theorem doesMatchValue_tupleString {vs : List Value} (hvs : ∀ v ∈ vs, v.IsDatum) (s : String) :
    Concludes (doesMatchValue (.tuple vs) (.val (.string s))) (vs = [] ∧ s = "")
      (vs.length ≠ s.utf8ByteSize ∨ HollowHead vs) := by
  by_cases hlen : vs.length = s.utf8ByteSize
  · cases vs with
    | nil =>
      have hs : s = "" := String.utf8ByteSize_eq_zero_iff.1 hlen.symm
      subst hs
      exact .of_ok ⟨rfl, rfl⟩ (fun h => h.elim (fun h => h rfl) id)
    | cons v vs =>
      have hsize : s.toByteArray.data.toList.length = s.utf8ByteSize := Array.length_toList
      cases hbytes : s.toByteArray.data.toList with
      | nil =>
        rw [hbytes, ← hlen] at hsize
        cases hsize
      | cons b bs =>
        have hchar := doesMatchValue_char (hvs v List.mem_cons_self) b
        have hne : ¬ ((v :: vs).length : Int) ≠ s.utf8ByteSize := by omega
        have hrec : doesMatchValue (.tuple (v :: vs)) (.val (.string s)) =
            doesMatchZip (v :: vs) ((b :: bs).map .chr) := by
          simp only [doesMatchValue, Templ.len, Value.len, if_neg hne, Templ.items, hbytes,
            List.isEmpty_cons, Bool.false_eq_true, if_false]
        rw [hrec]
        have hnil : ¬ (v :: vs = [] ∧ s = "") := fun h => List.cons_ne_nil _ _ h.1
        have hparts : ((v :: vs).length ≠ s.utf8ByteSize ∨ v.Hollow) ↔ v.Hollow :=
          or_iff_right (not_not_intro hlen)
        cases hr : doesMatchValue v (.chr b) with
        | ok _ => exact absurd hr (fun h => hchar.ok.1 h)
        | error e =>
          have hzip : doesMatchZip (v :: vs) ((b :: bs).map .chr) = .error e := by
            simp only [List.map_cons, doesMatchZip, hr]
          rw [hzip]
          rw [hr] at hchar
          exact ⟨iff_of_false (fun h => by cases h) hnil, hchar.refused.trans hparts.symm⟩
  · have href : doesMatchValue (.tuple vs) (.val (.string s)) = .error .noTupleMatch := by
      have hne : (vs.length : Int) ≠ s.utf8ByteSize := by omega
      simp only [doesMatchValue, Templ.len, Value.len, if_pos hne]
    rw [href]
    refine .of_refused (fun h => hlen ?_) (Or.inl hlen)
    rw [h.1, h.2]
    rfl

/-- A tuple against a formal: the length of a name is what is in the way of it. -/
theorem doesMatchValue_tupleFormal (vs : List Value) {w : Value} (hw : w.IsFormal) :
    Concludes (doesMatchValue (.tuple vs) (.val w)) ((Value.tuple vs).TakenFor w)
      ((Value.tuple vs).PartsFrom w) := by
  have hspec : ∃ t, w = .type t ∧ (Templ.val w).items = .error .typeError := by
    obtain ⟨name, ⟨word, id, rfl⟩ | ⟨word, rfl⟩⟩ := hw
    · exact ⟨_, rfl, rfl⟩
    · exact ⟨_, rfl, rfl⟩
  obtain ⟨t, rfl, hitems⟩ := hspec
  show Concludes _ (vs = [] ∧ t.typeSpec.length = 0) ((vs.length : Int) ≠ t.typeSpec.length)
  by_cases hlen : (vs.length : Int) = t.typeSpec.length
  · cases vs with
    | nil =>
      have hok : doesMatchValue (.tuple []) (.val (.type t)) = .ok () := by
        simp only [doesMatchValue, Templ.len, Value.len, if_neg (not_not_intro hlen),
          List.isEmpty_nil, if_true]
      rw [hok]
      exact .of_ok ⟨rfl, hlen.symm⟩ (not_not_intro hlen)
    | cons v vs =>
      have herr : doesMatchValue (.tuple (v :: vs)) (.val (.type t)) = .error .typeError := by
        simp only [doesMatchValue, Templ.len, Value.len, if_neg (not_not_intro hlen), hitems,
          List.isEmpty_cons, Bool.false_eq_true, if_false]
      rw [herr]
      exact .of_error (by decide) (fun h => List.cons_ne_nil _ _ h.1) (not_not_intro hlen)
  · have href : doesMatchValue (.tuple vs) (.val (.type t)) = .error .noTupleMatch := by
      simp only [doesMatchValue, Templ.len, Value.len, if_pos hlen]
    rw [href]
    refine .of_refused (fun h => hlen ?_) hlen
    rw [h.1, h.2]
    rfl

/-! ## The whole -/

/-- An atom against a template. -/
theorem doesMatchLeaf_concludes {v w : Value} (hv : v.IsAtom) (hw : w.IsTemplate) :
    Concludes (doesMatchLeaf v (.val w)) (v.TakenFor w) (v.PartsFrom w) := by
  have hleaf : ∀ t, doesMatchValue v t = doesMatchLeaf v t := doesMatchValue_leaf hv.not_isTuple
  cases hw with
  | leaf hw =>
    rcases hw with rfl | hw
    · rw [doesMatchLeaf_untyped hv rfl rfl]
      refine .of_error (by decide) ?_ ?_
      · cases v <;> first | exact hv.elim | exact fun h => by cases h
      · cases v <;> first | exact hv.elim | exact id
    · have htaken : v.TakenFor w ↔ v = w := by
        cases v <;> first | exact hv.elim | (cases w <;> first | exact hw.elim | exact Iff.rfl)
      have hparts : v.PartsFrom w ↔ v ≠ w := by
        cases v <;> first | exact hv.elim | (cases w <;> first | exact hw.elim | exact Iff.rfl)
      rw [← hleaf]
      rcases doesMatchValue_atom hv hw with ⟨hr, he⟩ | ⟨hr, he⟩
      · rw [hr]
        exact .of_ok (htaken.2 he) (fun h => hparts.1 h he)
      · rw [hr]
        exact .of_refused (fun h => he (htaken.1 h)) (hparts.2 he)
  | formal hw =>
    obtain ⟨t, rfl⟩ : ∃ t, w = .type t := by
      obtain ⟨name, ⟨word, id, rfl⟩ | ⟨word, rfl⟩⟩ := hw
      · exact ⟨_, rfl⟩
      · exact ⟨_, rfl⟩
    have hform := doesMatchLeaf_formal hv t
    cases v <;> first | exact hv.elim | exact hform
  | @tuple ws _ =>
    rw [doesMatchLeaf_untyped hv rfl rfl]
    refine .of_error (by decide) ?_ ?_
    · cases v <;> first | exact hv.elim | exact fun h => by cases h
    · cases v <;> first | exact hv.elim | exact id

/-- How the matcher ends on a datum and a template. -/
theorem doesMatchValue_concludes {v w : Value} (hv : v.IsDatum) (hw : w.IsTemplate) :
    Concludes (doesMatchValue v (.val w)) (v.TakenFor w) (v.PartsFrom w) := by
  induction hv generalizing w with
  | @leaf v h =>
    rcases h with rfl | h
    · have herr : doesMatchValue .nil (.val w) = .error .assertionError := doesMatchLeaf_nil w
      rw [herr]
      refine .of_error (by decide) ?_ ?_
      · cases w <;> exact id
      · cases w <;> exact id
    · rw [doesMatchValue_leaf h.not_isTuple]
      exact doesMatchLeaf_concludes h hw
  | @tuple vs hvs ih =>
    cases hw with
    | leaf hw =>
      have hno : ∀ w : Value, w.len = .error .typeError →
          doesMatchValue (.tuple vs) (.val w) = .error .typeError := by
        intro w hlen
        simp only [doesMatchValue, Templ.len, hlen]
      rcases hw with rfl | hw
      · rw [hno .nil rfl]
        exact .of_error (by decide) id id
      · cases w with
        | string s => exact doesMatchValue_tupleString hvs s
        | boolean b =>
          rw [hno (.boolean b) rfl]
          exact .of_error (by decide) id id
        | integer i =>
          rw [hno (.integer i) rfl]
          exact .of_error (by decide) id id
        | uinteger n =>
          rw [hno (.uinteger n) rfl]
          exact .of_error (by decide) id id
        | tsref i =>
          rw [hno (.tsref i) rfl]
          exact .of_error (by decide) id id
        | _ => exact hw.elim
    | formal hw => exact doesMatchValue_tupleFormal vs hw
    | @tuple ws hws => exact doesMatchValue_tuples fun v hv w hw => ih v hv (hws w hw)

mutual

/-- What conforms, and has no nil in it, is taken. -/
theorem Value.Conforms.takenFor : ∀ {v w : Value}, v.Conforms w → v.NoNil → v.TakenFor w
  | v, w, h, hn => by
    cases v with
    | nil => exact hn.elim
    | tuple vs =>
      cases w with
      | tuple ws => exact Conform.takenForAll h hn
      | _ => exact h.elim
    | _ => cases w <;> exact h

theorem Conform.takenForAll : ∀ {vs ws : List Value}, Conform vs ws → NoNils vs → TakenForAll vs ws
  | [], [], _, _ => trivial
  | [], _ :: _, h, _ => h.elim
  | _ :: _, [], h, _ => h.elim
  | _ :: _, _ :: _, h, hn => ⟨h.1.takenFor hn.1, Conform.takenForAll h.2 hn.2⟩

end

mutual

/-- There is no nil in what is taken. -/
theorem Value.TakenFor.noNil : ∀ {v w : Value}, v.TakenFor w → v.NoNil
  | v, w, h => by
    cases v with
    | nil => cases w <;> exact h.elim
    | tuple vs =>
      cases w with
      | tuple ws => exact TakenForAll.noNils h
      | string s =>
        rw [h.1]
        trivial
      | type t =>
        rw [h.1]
        trivial
      | _ => exact h.elim
    | _ => trivial

theorem TakenForAll.noNils : ∀ {vs ws : List Value}, TakenForAll vs ws → NoNils vs
  | [], _, _ => trivial
  | _ :: _, [], h => h.elim
  | _ :: _, _ :: _, h => ⟨h.1.noNil, TakenForAll.noNils h.2⟩

end

/-- What conforms to a template has its length. -/
theorem Conform.length_eq {vs ws : List Value} (h : Conform vs ws) : vs.length = ws.length := by
  induction vs generalizing ws with
  | nil =>
    cases ws with
    | nil => rfl
    | cons w ws => exact h.elim
  | cons v vs ih =>
    cases ws with
    | nil => exact h.elim
    | cons w ws => exact congrArg Nat.succ (ih h.2)

mutual

/-- What parts from a template does not conform to it. -/
theorem Value.PartsFrom.not_conforms : ∀ {v w : Value}, v.PartsFrom w → ¬ v.Conforms w
  | v, w, h => by
    cases v with
    | nil => cases w <;> exact h.elim
    | tuple vs =>
      cases w with
      | tuple ws =>
        intro hc
        exact h.elim (fun hlen => hlen (Conform.length_eq hc)) fun hp => PartFrom.not_conform hp hc
      | _ => exact id
    | _ =>
      cases w with
      | nil => exact h.elim
      | tuple ws => exact h.elim
      | type t => exact h.2
      | _ => exact h

theorem PartFrom.not_conform : ∀ {vs ws : List Value}, PartFrom vs ws → ¬ Conform vs ws
  | [], _, h => h.elim
  | _ :: _, [], h => h.elim
  | _ :: _, _ :: _, h => fun hc =>
    h.elim (fun hp => hp.not_conforms hc.1) fun hp => PartFrom.not_conform hp.2 hc.2

end

/-- Matching `t` with the template ends in a match or a mismatch, and in a match exactly when
`t` conforms to it; so a search that meets `t` goes on. -/
structure Structural (t p : Tuple) : Prop where
  total : doesMatch t p = .ok t ∨ doesMatch t p = .error .noTupleMatch
  exact : doesMatch t p = .ok t ↔ Conform t p
  search : ∀ before after, (∀ u ∈ before, Skips u p) →
    ∀ e, matchFirst p (before ++ t :: after) = .error e → matchFirst p after = .error e

theorem doesMatch_eq (t p : Tuple) :
    doesMatch t p = (doesMatchValue (.tuple t) (.val (.tuple p))).map fun _ => t := by
  unfold doesMatch
  by_cases hlen : t.length = p.length
  · rw [if_neg (not_not_intro hlen)]
    have hne : ¬ (t.length : Int) ≠ p.length := by omega
    have hrec : doesMatchValue (.tuple t) (.val (.tuple p)) = doesMatchZip t (p.map .val) := by
      cases t with
      | nil =>
        cases p with
        | nil => rfl
        | cons w ws => cases hlen
      | cons v vs =>
        simp only [doesMatchValue, Templ.len, Value.len, if_neg hne, Templ.items,
          List.isEmpty_cons, Bool.false_eq_true, if_false]
    rw [hrec]
    cases doesMatchZip t (p.map .val) <;> rfl
  · rw [if_pos hlen]
    have hne : (t.length : Int) ≠ p.length := by omega
    simp only [doesMatchValue, Templ.len, Value.len, if_pos hne]
    rfl

/-- The search goes past what it skips. -/
theorem matchFirst_past {p : Tuple} {before : List Tuple} (hb : ∀ u ∈ before, Skips u p)
    (after : List Tuple) : matchFirst p (before ++ after) = matchFirst p after := by
  induction before with
  | nil => rfl
  | cons u before ih =>
    rw [List.forall_mem_cons] at hb
    simp only [List.cons_append, matchFirst, tryMatch_none.2 hb.1, ih hb.2]

/-- Matching is structural exactly on data without nil that conform to the template, and where
the first place at which the two part is one that is refused. -/
theorem matching_structural_iff (t p : Tuple) (ht : ∀ v ∈ t, v.IsDatum)
    (hp : ∀ v ∈ p, v.IsTemplate) :
    Structural t p ↔ Conform t p ∧ NoNils t ∨ (Value.tuple t).PartsFrom (.tuple p) := by
  have hends := doesMatchValue_concludes (.tuple ht) (.tuple hp)
  have hok : doesMatch t p = .ok t ↔ TakenForAll t p := by
    rw [doesMatch_eq]
    refine Iff.trans ?_ hends.ok
    cases doesMatchValue (.tuple t) (.val (.tuple p)) with
    | ok u => exact iff_of_true rfl rfl
    | error e => exact iff_of_false (fun h => by cases h) (fun h => by cases h)
  have href : doesMatch t p = .error .noTupleMatch ↔ (Value.tuple t).PartsFrom (.tuple p) := by
    rw [doesMatch_eq]
    refine Iff.trans ?_ hends.refused
    cases doesMatchValue (.tuple t) (.val (.tuple p)) with
    | ok u => exact iff_of_false (fun h => by cases h) (fun h => by cases h)
    | error e => exact ⟨fun h => congrArg _ (Except.error.inj h), fun h => congrArg _ (Except.error.inj h)⟩
  constructor
  · intro h
    rcases h.total with hr | hr
    · exact Or.inl ⟨h.exact.1 hr, TakenForAll.noNils (hok.1 hr)⟩
    · exact Or.inr (href.1 hr)
  · intro h
    have htotal : doesMatch t p = .ok t ∨ doesMatch t p = .error .noTupleMatch := by
      rcases h with ⟨hc, hn⟩ | h
      · exact Or.inl (hok.2 (hc.takenForAll hn))
      · exact Or.inr (href.2 h)
    refine ⟨htotal, ?_, ?_⟩
    · rcases h with ⟨hc, hn⟩ | h
      · exact iff_of_true (hok.2 (hc.takenForAll hn)) hc
      · refine iff_of_false (fun hr => ?_) (fun hc => h.not_conforms hc)
        rw [href.2 h] at hr
        cases hr
    · intro before after hb e he
      rcases htotal with hr | hr
      · rw [matchFirst_append hb hr] at he
        cases he
      · rw [matchFirst_past hb] at he
        rw [← he]
        simp only [matchFirst, tryMatch_none.2 hr]

theorem matching_structural_formal :
    Structural [.integer 5, .tuple [.string "a"]] [.type longType, .tuple [.string "b"]] := by
  refine (matching_structural_iff _ _ ?_ ?_).2 (Or.inr (Or.inr (Or.inr ⟨?_, Or.inl ?_⟩)))
  · intro v hv
    rcases List.mem_cons.1 hv with rfl | hv
    · exact .leaf (Or.inr trivial)
    · obtain rfl := List.mem_singleton.1 hv
      exact .tuple fun u hu => List.mem_singleton.1 hu ▸ .leaf (Or.inr trivial)
  · intro v hv
    rcases List.mem_cons.1 hv with rfl | hv
    · exact .formal ⟨_, Or.inl ⟨0, "int64", rfl⟩⟩
    · obtain rfl := List.mem_singleton.1 hv
      exact .tuple fun u hu => List.mem_singleton.1 hu ▸ .leaf (Or.inr trivial)
  · exact Or.inl ⟨trivial, rfl⟩
  · show (Value.tuple [.string "a"]).PartsFrom (.tuple [.string "b"])
    refine Or.inr (Or.inl ?_)
    show Value.string "a" ≠ .string "b"
    intro h
    injection h with h
    exact absurd h (by decide)

/-- A stored tuple with a nil in it makes a read of nil fail. -/
theorem nil_not_matched :
    ¬ ∀ t p : Tuple, (∀ v ∈ t, v.IsDatum) → (∀ v ∈ p, v.IsTemplate) → Structural t p := by
  intro h
  have hnil := h [.nil] [.nil]
    (fun v hv => List.mem_singleton.1 hv ▸ .leaf (Or.inl rfl))
    (fun v hv => List.mem_singleton.1 hv ▸ .leaf (Or.inl rfl))
  have hr : doesMatch [.nil] [.nil] = .error .assertionError := rfl
  rcases hnil.total with ht | ht
  · rw [hr] at ht
    cases ht
  · rw [hr] at ht
    cases ht

end PyLinda
