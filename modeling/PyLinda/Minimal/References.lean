import PyLinda.Minimal.Heap

/-!
# What is freed and what is enumerated

`Minimal_delObject` drops what `Minimal_getReferences` enumerates, as long as the children that
only the second one lets be `NULL` are there.
-/

namespace PyLinda.Counted

section
variable {R : Type}

/-! ## Dropping -/

/-- The words dropped are the pointers among the words enumerated, as often as they are there,
and all of them are counted references. -/
def Drops (dropped listed : List (Word R)) : Prop :=
  dropped.Perm (listed.filter fun w => !w.isNull) ∧ ∀ w ∈ dropped, w.isRef = true

def Pointers (ws : List (Word R)) : Prop := ∀ w ∈ ws, ∃ a, w = .of a

def NonNull (ws : List (Word R)) : Prop := ∀ w ∈ ws, w.isNull = false

theorem isRef_of (a : Option R) : (Word.of a).isRef = !(Word.of a).isNull := by
  cases a <;> rfl

theorem Pointers.isRef {ws : List (Word R)} (h : Pointers ws) {w : Word R} (hw : w ∈ ws) :
    w.isRef = !w.isNull := by
  obtain ⟨a, rfl⟩ := h w hw
  exact isRef_of a

theorem pointers_of (as : List (Option R)) : Pointers (as.map Word.of) := by
  intro w hw
  obtain ⟨a, -, rfl⟩ := List.mem_map.1 hw
  exact ⟨a, rfl⟩

/-- What is dropped without a test has to be there. -/
theorem drops_iff {dropped listed : List (Word R)} (hp : dropped.Perm listed)
    (hl : Pointers listed) : Drops dropped listed ↔ NonNull listed := by
  constructor
  · rintro ⟨-, href⟩ w hw
    have hr := href w (hp.mem_iff.2 hw)
    rw [hl.isRef hw] at hr
    simpa using hr
  · intro hn
    have hf : (listed.filter fun w => !w.isNull) = listed := by
      rw [List.filter_eq_self]
      intro w hw
      simp [hn w hw]
    refine ⟨by rw [hf]; exact hp, ?_⟩
    intro w hw
    have hw' := hp.mem_iff.1 hw
    rw [hl.isRef hw', hn w hw']
    rfl

/-- What is dropped after a test may be missing. -/
theorem drops_tested {dropped listed : List (Word R)}
    (hp : dropped.Perm (listed.filter fun w => !w.isNull)) (hl : Pointers listed) :
    Drops dropped listed := by
  refine ⟨hp, ?_⟩
  intro w hw
  have hw' := List.mem_filter.1 (hp.mem_iff.1 hw)
  rw [hl.isRef hw'.1]
  exact hw'.2

theorem drops_append_left {dropped listed tested : List (Word R)}
    (ht : ∀ w ∈ tested, w.isRef = true) :
    Drops (tested ++ dropped) (tested ++ listed) ↔ Drops dropped listed := by
  have hf : (tested.filter fun w => !w.isNull) = tested := by
    rw [List.filter_eq_self]
    intro w hw
    have := ht w hw
    cases w <;> simp_all [Word.isRef, Word.isNull]
  unfold Drops
  rw [List.filter_append, hf, List.perm_append_left_iff]
  constructor
  · rintro ⟨hp, href⟩
    exact ⟨hp, fun w hw => href w (List.mem_append_right _ hw)⟩
  · rintro ⟨hp, href⟩
    refine ⟨hp, ?_⟩
    intro w hw
    cases List.mem_append.1 hw with
    | inl h => exact ht w h
    | inr h => exact href w h

/-- `if(w != NULL) { … }` -/
theorem tested_isRef (a : Option R) :
    ∀ w ∈ (if (Word.of a).isNull then [] else [Word.of a]), w.isRef = true := by
  cases a <;> simp [Word.of, Word.isNull, Word.isRef]

theorem pointers_cons {w : Word R} {ws : List (Word R)} :
    Pointers (w :: ws) ↔ (∃ a, w = .of a) ∧ Pointers ws := by
  simp [Pointers]

theorem nonNull_cons {w : Word R} {ws : List (Word R)} :
    NonNull (w :: ws) ↔ w.isNull = false ∧ NonNull ws := by
  simp [NonNull]

/-- `if(w != NULL) { … }` drops what is in the list with `w` alone. -/
theorem tested_perm (a : Option R) :
    (if (Word.of a).isNull then [] else [Word.of a]).Perm
      ([Word.of a].filter fun w => !w.isNull) := by
  cases a <;> exact .refl _

theorem drops_nil : Drops (R := R) [] [] := ⟨.nil, fun w hw => by cases hw⟩

theorem not_drops_nil {w : Word R} : ¬ Drops [w] [] := fun h => by
  have := h.1.length_eq
  simp at this

theorem drops_cons_iff (a : Option R) {dropped listed : List (Word R)}
    (h : Drops dropped listed) :
    Drops (Word.of a :: dropped) (Word.of a :: listed) ↔ NonNull [Word.of a] := by
  cases a with
  | none =>
    refine iff_of_false ?_ ?_
    · intro hd
      have := hd.2 (Word.of none) (List.mem_cons_self ..)
      cases this
    · intro hn
      have := hn (Word.of none) (List.mem_cons_self ..)
      cases this
  | some r =>
    refine iff_of_true ?_ ?_
    · exact (drops_append_left (tested_isRef (some r))).2 h
    · intro w hw
      rw [List.mem_singleton.1 hw]
      rfl

/-- An array with its length next to it. -/
def Sized (size array : Word R) : Prop :=
  ∃ elems : List (Option R), size = .number elems.length ∧
    (array = .array elems ∨ elems = [] ∧ array = .null)

theorem elements_array (elems : List (Option R)) :
    elements (.number elems.length) (.array elems) = elems.map Word.of := by
  apply List.ext_getElem
  · simp [elements]
  · intro i h1 h2
    have hi : i < elems.length := by simpa using h2
    simp [elements, List.getElem?_eq_getElem hi]

theorem Sized.elements {size array : Word R} (h : Sized size array) :
    ∃ elems : List (Option R), elements size array = elems.map Word.of := by
  obtain ⟨elems, rfl, rfl | ⟨rfl, rfl⟩⟩ := h
  · exact ⟨elems, elements_array elems⟩
  · exact ⟨[], rfl⟩

theorem Sized.pointers {size array : Word R} (h : Sized size array) :
    Pointers (Counted.elements size array) := by
  obtain ⟨elems, he⟩ := h.elements
  rw [he]
  exact pointers_of elems

theorem sized_replicate (n : Nat) :
    Sized (R := R) (.number n) (if n = 0 then .null else .array (List.replicate n none)) := by
  refine ⟨List.replicate n none, by simp, ?_⟩
  by_cases hn : n = 0
  · right
    simp [hn]
  · left
    rw [if_neg hn]

/-! ## Syntax trees -/

namespace Tree

/-- The members that a node uses hold pointers. -/
def Slots (t : Tree R) : Prop :=
  match t.type with
  | .blank | .nil | .identifier | .integer | .string | .pointer => True
  | .sequentialDefs | .typeFunction | .productType | .sumType | .tuple => Sized t.u0 t.u1
  | .typeSpec | .bracket | .parameterList => Pointers [t.u1]
  | .functionDef => Pointers [t.u1, t.u2, t.u3]
  | .functionCall | .argumentList | .index => Pointers [t.u0, t.u1]
  | .operator => Pointers [t.u1, t.u2]
  | .let | .ifExpr => Pointers [t.u0, t.u1, t.u2]

theorem sized_push {t : Tree R} (h : Sized t.u0 t.u1) (v : Option R) :
    Sized (t.addBranch v).u0 (t.addBranch v).u1 ∧
      Sized (t.prependBranch v).u0 (t.prependBranch v).u1 ∧
      Sized (t.addToTuple v).u0 (t.addToTuple v).u1 := by
  obtain ⟨type, u0, u1, u2, u3⟩ := t
  obtain ⟨elems, rfl, rfl | ⟨rfl, rfl⟩⟩ := h
  · refine ⟨⟨elems ++ [v], by simp [addBranch, length, branches], .inl rfl⟩,
      ⟨v :: elems, by simp [prependBranch, length, branches], .inl rfl⟩, ?_⟩
    by_cases he : elems = []
    · refine ⟨[v], ?_, .inl ?_⟩ <;> simp [addToTuple, size, tuple, he]
    · refine ⟨elems ++ [v], ?_, .inl ?_⟩ <;> simp [addToTuple, size, tuple, he]
  · exact ⟨⟨[v], rfl, .inl rfl⟩, ⟨[v], rfl, .inl rfl⟩, ⟨[v], rfl, .inl rfl⟩⟩

@[simp] theorem type_addBranch (t : Tree R) (v : Option R) : (t.addBranch v).type = t.type := by
  unfold addBranch
  split <;> rfl

@[simp] theorem type_prependBranch (t : Tree R) (v : Option R) :
    (t.prependBranch v).type = t.type := by
  unfold prependBranch
  split <;> rfl

@[simp] theorem type_addToTuple (t : Tree R) (v : Option R) : (t.addToTuple v).type = t.type := by
  unfold addToTuple
  split
  · split <;> rfl
  · rfl

@[simp] theorem type_setTuple (t : Tree R) (i : Nat) (v : Option R) :
    (t.setTuple i v).type = t.type := by
  unfold setTuple
  split <;> rfl

@[simp] theorem type_setTypeSpec (t : Tree R) (v : Option R) :
    (t.setTypeSpec v).type = t.type := rfl

@[simp] theorem type_setNextArg (t : Tree R) (v : Option R) :
    (t.setNextArg v).type = t.type := rfl

@[simp] theorem type_setNextVar (t : Tree R) (v : Option R) :
    (t.setNextVar v).type = t.type := rfl

theorem sized_setTuple {t : Tree R} (h : Sized t.u0 t.u1) (i : Nat) (v : Option R) :
    Sized (t.setTuple i v).u0 (t.setTuple i v).u1 := by
  obtain ⟨type, u0, u1, u2, u3⟩ := t
  obtain ⟨elems, rfl, rfl | ⟨rfl, rfl⟩⟩ := h
  · exact ⟨elems.set i v, by simp [setTuple, tuple], .inl rfl⟩
  · exact ⟨[], rfl, .inr ⟨rfl, rfl⟩⟩

theorem Built.slots {t : Tree R} (h : Built t) : Slots t := by
  induction h with
  | blank | nil | id | integer | string | pointer => trivial
  | operator e1 e2 => exact pointers_of [e1, e2]
  | bracket b => exact pointers_of [b]
  | index e i => exact pointers_of [e, i]
  | tuple n => exact sized_replicate n
  | setTuple t i v hb ht ih =>
    unfold Slots at ih ⊢
    rw [type_setTuple, ht]
    rw [ht] at ih
    exact sized_setTuple ih i v
  | addToTuple t v hb ht ih =>
    unfold Slots at ih ⊢
    rw [type_addToTuple]
    cases ht with
    | inl ht => rw [ht] at ih ⊢; exact (sized_push ih v).2.2
    | inr ht => rw [ht] at ih ⊢; exact (sized_push ih v).2.2
  | ifExpr a b c => exact pointers_of [a, b, c]
  | sequence | productType | sumType => exact ⟨[], rfl, .inr ⟨rfl, rfl⟩⟩
  | pair a b => exact ⟨[a, b], rfl, .inl rfl⟩
  | addBranch t v hb ht ih =>
    unfold Slots at ih ⊢
    rw [type_addBranch]
    rcases ht with ht | ht | ht <;> rw [ht] at ih ⊢ <;> exact (sized_push ih v).1
  | prependBranch t v hb ht ih =>
    unfold Slots at ih ⊢
    rw [type_prependBranch]
    rcases ht with ht | ht | ht <;> rw [ht] at ih ⊢ <;> exact (sized_push ih v).2.1
  | typeSpec s => exact pointers_of [s]
  | function a b => exact ⟨[a, b], rfl, .inl rfl⟩
  | functionCall f a => exact pointers_of [f, a]
  | «let» a b c => exact pointers_of [a, b, c]
  | functionDef a b => exact pointers_of [none, a, b]
  | setTypeSpec t v hb ht ih =>
    unfold Slots at ih ⊢
    rw [type_setTypeSpec, ht]
    rw [ht] at ih
    exact pointers_cons.2 ⟨⟨v, rfl⟩, (pointers_cons.1 ih).2⟩
  | argumentList s => exact pointers_of [s, none]
  | setNextArg t v hb ht ih =>
    unfold Slots at ih ⊢
    rw [type_setNextArg, ht]
    rw [ht] at ih
    exact pointers_cons.2 ⟨(pointers_cons.1 ih).1, pointers_of [v]⟩
  | parameterList => exact pointers_of [none]
  | setNextVar t v hb ht ih =>
    unfold Slots at ih ⊢
    rw [type_setNextVar, ht]
    exact pointers_of [v]

/-- The children that `Minimal_SyntaxTree_free` drops without a test. -/
def Complete (t : Tree R) : Prop :=
  match t.type with
  | .blank | .nil | .identifier | .integer | .string | .parameterList => True
  | .sequentialDefs | .typeFunction | .productType | .sumType | .tuple =>
    NonNull (elements t.size t.branches)
  | .typeSpec | .bracket => NonNull [t.typeDef]
  | .functionDef => NonNull [t.parameterList, t.body]
  | .functionCall => NonNull [t.function, t.arguments]
  | .let => NonNull [t.var, t.letexpr, t.code]
  | .argumentList => NonNull [t.argument]
  | .operator => NonNull [t.op1, t.op2]
  | .pointer => False
  | .ifExpr => NonNull [t.if, t.then, t.else]
  | .index => NonNull [t.expr, t.index]

theorem drops_iff_complete {t : Tree R} (h : Slots t) :
    Drops t.free t.references ↔ Complete t := by
  obtain ⟨type, u0, u1, u2, u3⟩ := t
  unfold Slots at h
  cases type with
  | blank | nil | identifier | integer | string =>
    exact iff_of_true drops_nil trivial
  | pointer => exact iff_of_false not_drops_nil not_false
  | sequentialDefs | typeFunction | productType | sumType | tuple =>
    exact drops_iff (.refl _) h.pointers
  | typeSpec | bracket => exact drops_iff (.refl _) h
  | functionDef =>
    obtain ⟨⟨a, rfl⟩, hrest⟩ := pointers_cons.1 h
    exact (drops_append_left (tested_isRef a)).trans (drops_iff (.refl _) hrest)
  | functionCall | index => exact drops_iff (.refl _) h
  | «let» | ifExpr => exact drops_iff (.refl _) h
  | operator => exact drops_iff (.refl _) h
  | parameterList =>
    obtain ⟨⟨a, rfl⟩, -⟩ := pointers_cons.1 h
    exact iff_of_true (drops_tested (tested_perm a) h) trivial
  | argumentList =>
    obtain ⟨⟨a, rfl⟩, hrest⟩ := pointers_cons.1 h
    obtain ⟨⟨b, rfl⟩, -⟩ := pointers_cons.1 hrest
    exact drops_cons_iff a (drops_tested (tested_perm b) hrest)

end Tree

/-! ## Values -/

namespace Val

/-- The members that a value uses hold pointers. -/
def Slots (v : Val R) : Prop :=
  Pointers [v.typeobj] ∧
    match v.type with
    | .nil | .boolean | .integer | .uinteger | .float | .double | .string | .tsref
    | .builtInFunc => True
    | .type => Pointers [v.u1, v.u2]
    | .tuple => Sized v.u1 v.u0
    | .sum | .pointer | .syntaxTree => Pointers [v.u0]
    | .function => Pointers [v.u1, v.u2, v.u3]

@[simp] theorem type_tupleSet (v : Val R) (pos : Nat) (value : Option R) :
    (v.tupleSet pos value).type = v.type := by
  unfold tupleSet
  split
  · split <;> rfl
  · rfl

@[simp] theorem typeobj_tupleSet (v : Val R) (pos : Nat) (value : Option R) :
    (v.tupleSet pos value).typeobj = v.typeobj := by
  unfold tupleSet
  split
  · split <;> rfl
  · rfl

@[simp] theorem type_setPtr (v : Val R) (v2 : Option R) : (v.setPtr v2).type = v.type := rfl

@[simp] theorem type_setSumValue (v : Val R) (val : Option R) (i : Int) :
    (v.setSumValue val i).type = v.type := rfl

@[simp] theorem type_setTypeMap (v : Val R) (types : Option R) :
    (v.setTypeMap types).type = v.type := rfl

@[simp] theorem type_setLayer (v : Val R) (layer : Option R) :
    (v.setLayer layer).type = v.type := rfl

theorem sized_tupleSet {v : Val R} (h : Sized v.u1 v.u0) (pos : Nat) (value : Option R) :
    Sized (v.tupleSet pos value).u1 (v.tupleSet pos value).u0 := by
  obtain ⟨kind, typeobj, u0, u1, u2, u3⟩ := v
  obtain ⟨elems, rfl, rfl | ⟨rfl, rfl⟩⟩ := h
  · by_cases hpos : pos < elems.length
    · refine ⟨elems.set pos value, ?_, .inl ?_⟩ <;> simp [tupleSet, size, values, hpos]
    · refine ⟨(elems ++ List.replicate (pos + 1 - elems.length) none).set pos value, ?_, .inl ?_⟩
      · simp [tupleSet, size, values, hpos]
        omega
      · simp [tupleSet, size, values, hpos]
  · refine ⟨(List.replicate (pos + 1) none).set pos value, ?_, .inl rfl⟩
    simp [tupleSet, size, values]

theorem Built.slots {v : Val R} (h : Built v) : Slots v := by
  induction h with
  | scalar kind typeobj n hk =>
    refine ⟨pointers_of [typeobj], ?_⟩
    rcases hk with rfl | rfl | rfl | rfl | rfl | rfl <;> trivial
  | string typeobj => exact ⟨pointers_of [typeobj], trivial⟩
  | typeSpec typeobj spec layer => exact ⟨pointers_of [typeobj], pointers_of [spec, layer]⟩
  | typeFromId typeobj => exact ⟨pointers_of [typeobj], pointers_of [none, none]⟩
  | function typeobj parameterList code layer =>
    exact ⟨pointers_of [typeobj], pointers_of [parameterList, code, layer]⟩
  | tuple n => exact ⟨pointers_of [none], sized_replicate n⟩
  | tupleSet v pos value hb ht ih =>
    unfold Slots at ih ⊢
    rw [typeobj_tupleSet, type_tupleSet, ht]
    rw [ht] at ih
    exact ⟨ih.1, sized_tupleSet ih.2 pos value⟩
  | ptr value => exact ⟨pointers_of [none], pointers_of [value]⟩
  | setPtr v v2 hb ht ih =>
    unfold Slots at ih ⊢
    rw [type_setPtr, ht]
    exact ⟨ih.1, pointers_of [v2]⟩
  | tupleSpace typeobj => exact ⟨pointers_of [typeobj], trivial⟩
  | sum val i => exact ⟨pointers_of [none], pointers_of [val]⟩
  | setSumValue v val i hb ht ih =>
    unfold Slots at ih ⊢
    rw [type_setSumValue, ht]
    exact ⟨ih.1, pointers_of [val]⟩
  | syntaxTree tree => exact ⟨pointers_of [none], pointers_of [tree]⟩
  | builtInFunc n => exact ⟨pointers_of [none], trivial⟩
  | setType v typeobj hb ih => exact ⟨pointers_of [typeobj], ih.2⟩
  | setTypeMap v types hb ht ih =>
    unfold Slots at ih ⊢
    rw [type_setTypeMap, ht]
    rw [ht] at ih
    exact ⟨ih.1, pointers_cons.2 ⟨(pointers_cons.1 ih.2).1, pointers_of [types]⟩⟩
  | setLayer v layer hb ht ih =>
    unfold Slots at ih ⊢
    rw [type_setLayer, ht]
    rw [ht] at ih
    obtain ⟨hparams, hrest⟩ := pointers_cons.1 ih.2
    exact ⟨ih.1, pointers_cons.2 ⟨hparams,
      pointers_cons.2 ⟨(pointers_cons.1 hrest).1, pointers_of [layer]⟩⟩⟩

/-- The children that `Minimal_Value_free` drops without a test. -/
def Complete (v : Val R) : Prop :=
  match v.type with
  | .nil | .boolean | .integer | .uinteger | .float | .double | .string | .tsref
  | .builtInFunc | .type | .tuple => True
  | .sum => NonNull [v.value]
  | .function => NonNull [v.parameterList, v.code, v.layer]
  | .pointer => NonNull [v.ptr]
  | .syntaxTree => NonNull [v.syntaxTree]

theorem drops_iff_complete {v : Val R} (h : Slots v) :
    Drops v.free v.references ↔ Complete v := by
  obtain ⟨kind, typeobj, u0, u1, u2, u3⟩ := v
  obtain ⟨htype, h⟩ := h
  obtain ⟨⟨a, rfl⟩, -⟩ := pointers_cons.1 htype
  refine (drops_append_left (tested_isRef a)).trans ?_
  cases kind with
  | nil | boolean | integer | uinteger | float | double | string | tsref | builtInFunc =>
    exact iff_of_true drops_nil trivial
  | type =>
    obtain ⟨⟨spec, rfl⟩, hrest⟩ := pointers_cons.1 h
    obtain ⟨⟨types, rfl⟩, -⟩ := pointers_cons.1 hrest
    refine iff_of_true (drops_tested ?_ (pointers_of [types, spec])) trivial
    show (_ ++ _ : List (Word R)).Perm (([Word.of types] ++ [Word.of spec]).filter _)
    rw [List.filter_append]
    exact List.perm_append_comm.trans ((tested_perm types).append (tested_perm spec))
  | tuple => exact iff_of_true (drops_tested (.refl _) h.pointers) trivial
  | sum | pointer | syntaxTree => exact drops_iff (.refl _) h
  | function =>
    have hp : [u1, u2, u3].Perm [u3, u1, u2] := @List.perm_append_comm _ [u1, u2] [u3]
    exact (drops_iff hp fun w hw => h w (hp.mem_iff.2 hw)).trans
      ⟨fun hn w hw => hn w (hp.mem_iff.1 hw), fun hn w hw => hn w (hp.mem_iff.2 hw)⟩

end Val

/-! ## Layers and maps -/

theorem Layer.Built.drops {l : Layer R} (h : l.Built) : Drops l.free l.references := by
  cases h with
  | create parent map =>
    refine ⟨?_, ?_⟩
    · show (_ ++ [_]).Perm _
      rw [show (Layer.references ⟨Word.of parent, .ref map⟩) =
        [.ref map] ++ if (Word.of parent).isNull then [] else [Word.of parent] from rfl,
        List.filter_append]
      cases parent
      · exact .refl _
      · exact @List.perm_append_comm _ [_] [_]
    · intro w hw
      cases List.mem_append.1 hw with
      | inl h => exact tested_isRef parent w h
      | inr h => rw [List.mem_singleton.1 h]; rfl

section
variable {strcmp : String → String → Int}

/-- A node with a name has a value. -/
def Filled : NameMap R → Prop
  | .null => True
  | .node name v l r => (name.isSome → v.isSome) ∧ Filled l ∧ Filled r

theorem filled_addName {map map' : NameMap R} {name : String} {tree : R} (h : Filled map)
    (ha : map.addName strcmp name tree = some map') : Filled map' := by
  induction map generalizing map' with
  | null =>
    simp only [NameMap.addName] at ha
    cases ha
    trivial
  | node n v l r ihl ihr =>
    obtain ⟨hv, hl, hr⟩ := h
    have hleaf : Filled (.node (some name) (some tree) .null .null) :=
      ⟨fun _ => rfl, trivial, trivial⟩
    cases n with
    | none =>
      unfold NameMap.addName at ha
      split at ha
      · cases ha
      · split at ha
        · cases ha
        · obtain ⟨l', hl', rfl⟩ := Option.map_eq_some_iff.1 ha
          exact ⟨hv, ihl hl hl', hr⟩
        · split at ha
          · cases ha
          · obtain ⟨r', hr', rfl⟩ := Option.map_eq_some_iff.1 ha
            exact ⟨hv, hl, ihr hr hr'⟩
          · cases ha
            exact ⟨fun _ => rfl, hl, hr⟩
    | some m =>
      unfold NameMap.addName at ha
      split at ha
      · cases ha
      · split at ha
        · cases ha
          exact ⟨fun _ => rfl, hl, hr⟩
        · split at ha
          · split at ha
            · cases ha
              exact ⟨hv, hleaf, hr⟩
            · obtain ⟨l', hl', rfl⟩ := Option.map_eq_some_iff.1 ha
              exact ⟨hv, ihl hl hl', hr⟩
          · split at ha
            · split at ha
              · cases ha
                exact ⟨hv, hl, hleaf⟩
              · obtain ⟨r', hr', rfl⟩ := Option.map_eq_some_iff.1 ha
                exact ⟨hv, hl, ihr hr hr'⟩
            · cases ha
              exact ⟨hv, hl, hr⟩

theorem filled_delName {map : NameMap R} {name : String} (h : Filled map) :
    Filled (map.delName strcmp name) := by
  induction map with
  | null => trivial
  | node n v l r ihl ihr =>
    obtain ⟨hv, hl, hr⟩ := h
    cases n with
    | none => exact ⟨hv, hl, hr⟩
    | some m =>
      unfold NameMap.delName
      split
      · exact ⟨(fun h => by cases h), hl, hr⟩
      · split
        · exact ⟨hv, ihl hl, hr⟩
        · split
          · exact ⟨hv, ihl hl, hr⟩
          · exact ⟨hv, hl, hr⟩

theorem MapBuilt.filled {map : NameMap R} (h : MapBuilt strcmp map) : Filled map := by
  induction h with
  | init => exact ⟨(fun h => by cases h), trivial, trivial⟩
  | add map map' name tree hb ha ih => exact filled_addName ih ha
  | del map name hb ih => exact filled_delName ih

theorem Filled.isRef {map : NameMap R} (h : Filled map) :
    ∀ w ∈ mapReferences map, w.isRef = true := by
  induction map with
  | null => intro w hw; cases hw
  | node name v l r ihl ihr =>
    intro w hw
    simp only [mapReferences, List.mem_append] at hw
    rcases hw with (hw | hw) | hw
    · exact ihl h.2.1 w hw
    · exact ihr h.2.2 w hw
    · cases name with
      | none => cases hw
      | some m =>
        obtain ⟨r, hr⟩ := Option.isSome_iff_exists.1 (h.1 rfl)
        rw [List.mem_singleton.1 hw, hr]
        rfl

theorem mapFree_eq (hc : Conforming strcmp) (map : NameMap R) :
    mapFree strcmp map = mapReferences map := by
  induction map with
  | null => rfl
  | node name v l r ihl ihr =>
    cases name with
    | none => simp [mapFree, mapReferences, ihl, ihr]
    | some m => simp [mapFree, mapReferences, ihl, ihr, (hc.zero m m).2 rfl]

theorem mapBuilt_drops (hc : Conforming strcmp) {map : NameMap R} (h : MapBuilt strcmp map) :
    Drops (mapFree strcmp map) (mapReferences map) := by
  rw [mapFree_eq hc]
  have href := h.filled.isRef
  have hd : Drops (mapReferences map ++ []) (mapReferences map ++ []) :=
    (drops_append_left href).2 drops_nil
  simpa using hd

/-! ## Objects -/

namespace Object

/-- The children that `Minimal_delObject` drops without a test are there. -/
def Complete : Object R → Prop
  | value v => v.Complete
  | layer _ => True
  | map _ => True
  | syntaxTree t => t.Complete

/-- `Minimal_delObject` drops, as often as it is there, each reference that
`Minimal_getReferences` enumerates, and nothing else, if and only if those children are there. -/
theorem drops_references_iff (hc : Conforming strcmp) (o : Object R) (h : o.Built strcmp) :
    Drops (o.free strcmp) o.references ↔ o.Complete := by
  cases o with
  | value v => exact Val.drops_iff_complete (Val.Built.slots h)
  | layer l => exact iff_of_true (Layer.Built.drops h) trivial
  | map m => exact iff_of_true (mapBuilt_drops hc h) trivial
  | syntaxTree t => exact Tree.drops_iff_complete (Tree.Built.slots h)

/-- A call with an argument. -/
theorem drops_references_call :
    Drops (free NameMap.signs (syntaxTree (Tree.createFunctionCall (some 0) (some 1))))
      (references (syntaxTree (Tree.createFunctionCall (some 0) (some 1)))) := by
  refine (drops_references_iff (R := Nat) NameMap.signs_conforming _ ?_).2 ?_
  · exact Tree.Built.functionCall (some 0) (some 1)
  · exact nonNull_cons.2 ⟨rfl, nonNull_cons.2 ⟨rfl, fun w hw => by cases hw⟩⟩

/-- `f()` has no arguments, and drops them. -/
theorem call_drops_null :
    ¬ ∀ (strcmp : String → String → Int) (o : Object Nat), Conforming strcmp → o.Built strcmp →
      Drops (o.free strcmp) o.references := by
  intro h
  have hd := h NameMap.signs (syntaxTree (Tree.createFunctionCall (some 0) none))
    NameMap.signs_conforming (Tree.Built.functionCall (some 0) none)
  have href := hd.2 .null (List.mem_cons_of_mem _ (List.mem_singleton.2 rfl))
  cases href

end Object

end

end

end PyLinda.Counted
