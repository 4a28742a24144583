import PyLinda.Lib.Explored
import PyLinda.Minimal.SyntaxTree
import PyLinda.Types.Iso

/-!
# The types that a type needs

`type_list.c`: a type, its type, and the types of the names and pointers in its specification,
and so on. `none` is a crash, or that the calls went deeper than they may.
-/

namespace PyLinda.TypeList

open Lib PyLinda.Types Relation

/-- The address of a type. -/
abbrev Addr := Nat

/-- A value of kind `M_TYPE`: its specification, the layer it was made in, and its own type. -/
structure TypeDef (L : Type) where
  typeSpec : SyntaxTree
  typemap : L
  typeobj : Option Addr

/-- The types there are, and what the names stand for in a layer. -/
structure Definitions (L : Type) where
  types : Addr → TypeDef L
  getName : L → String → Option Addr

namespace Definitions

section
variable {L : Type} (D : Definitions L)

section
variable (again : Addr → L → List Addr → Option (List Addr))

/-- `Minimal_addTypeToTypeList`: whether the type was added, and the list. -/
def addTypeToTypeList (type : Addr) (list : List Addr) : Option (Bool × List Addr) :=
  if type ∈ list then some (false, list)
  else match (D.types type).typeobj with
    | none => some (true, list ++ [type])
    | some o => (again o (D.types o).typemap (list ++ [type])).map fun list => (true, list)

/-- A name that is not built in is looked up and added. -/
def addName (typemap : L) (name : String) (list : List Addr) : Option (List Addr) :=
  if isBuiltIn name then some list
  else match D.getName typemap name with
    | none => some list -- "Unable to get type"
    | some v => again v typemap list

mutual

/-- `Minimal_getTypeList2`. -/
def getTypeList2 (typemap : L) : SyntaxTree → List Addr → Option (List Addr)
  | .null, _ => none
  | .nil, list => some list
  | .identifier string _, list => D.addName again typemap string list
  | .integer _, list => some list
  | .typeSpec _ typeDef, list => getTypeList2 typemap typeDef list
  | .typeFunction arg value, list =>
    (getTypeList2 typemap arg list).bind fun list => getTypeList2 typemap value list
  | .parameterList _ _, list => some list
  | .productType branches, list => getTypeLists typemap branches list
  | .sumType branches, list => getTypeLists typemap branches list
  | .pointer ptr, list => D.addName again typemap ptr list
  | .bracket typeDef, list => getTypeList2 typemap typeDef list
  | _, list => some list -- "Unknown syntax tree id"

/-- The loop over the branches. -/
def getTypeLists (typemap : L) : List SyntaxTree → List Addr → Option (List Addr)
  | [], list => some list
  | branch :: branches, list =>
    (getTypeList2 typemap branch list).bind fun list => getTypeLists typemap branches list

end

end

/-- `if(Minimal_addTypeToTypeList(list, v)) Minimal_getTypeList2(v->type_spec, typemap, list);`,
as it stands in three places. -/
def addWithSpec : (depth : Nat) → Addr → L → List Addr → Option (List Addr)
  | 0, _, _, _ => none
  | depth + 1, v, typemap, list =>
    (D.addTypeToTypeList (addWithSpec depth) v list).bind fun r =>
      if r.1 then D.getTypeList2 (addWithSpec depth) typemap (D.types v).typeSpec r.2
      else some r.2

/-- `Minimal_getTypeList`. -/
def getTypeList (depth : Nat) (type : Addr) : Option (List Addr) :=
  (D.addTypeToTypeList (D.addWithSpec depth) type []).bind fun r =>
    if (D.types type).typeSpec.isNull then some r.2
    else D.getTypeList2 (D.addWithSpec depth) (D.types type).typemap (D.types type).typeSpec r.2

end

end Definitions

/-! ## What the list is for -/

mutual

/-- The names in a specification that are not built in. -/
def mentions : SyntaxTree → List String
  | .identifier string _ => if isBuiltIn string then [] else [string]
  | .typeSpec _ typeDef => mentions typeDef
  | .typeFunction arg value => mentions arg ++ mentions value
  | .productType branches => allMentions branches
  | .sumType branches => allMentions branches
  | .pointer ptr => if isBuiltIn ptr then [] else [ptr]
  | .bracket typeDef => mentions typeDef
  | _ => []

def allMentions : List SyntaxTree → List String
  | [] => []
  | branch :: branches => mentions branch ++ allMentions branches

end

mutual

/-- No part of the specification is missing. -/
def Whole : SyntaxTree → Prop
  | .null => False
  | .typeSpec _ typeDef => Whole typeDef
  | .typeFunction arg value => Whole arg ∧ Whole value
  | .productType branches => AllWhole branches
  | .sumType branches => AllWhole branches
  | .bracket typeDef => Whole typeDef
  | _ => True

def AllWhole : List SyntaxTree → Prop
  | [] => True
  | branch :: branches => Whole branch ∧ AllWhole branches

end

section
variable {L : Type}

/-- `y` is the type of `x`, or a name in the specification of `x` stands for it. -/
def Definitions.Refers (D : Definitions L) (x y : Addr) : Prop :=
  (D.types x).typeobj = some y ∨
    ∃ name ∈ mentions (D.types x).typeSpec, D.getName (D.types x).typemap name = some y

/-- A layer of definitions: `U` are its types and their types, all with a specification of which
the names are bound. A type that is found in a layer means in it what it means in its own. -/
structure Layer (D : Definitions L) (U : List Addr) : Prop where
  closed : ∀ x ∈ U, ∀ y, D.Refers x y → y ∈ U
  whole : ∀ x ∈ U, Whole (D.types x).typeSpec
  bound : ∀ x ∈ U, ∀ name ∈ mentions (D.types x).typeSpec,
    ∃ y, D.getName (D.types x).typemap name = some y
  alike : ∀ x ∈ U, ∀ name y, D.getName (D.types x).typemap name = some y →
    ∀ name' ∈ mentions (D.types y).typeSpec,
      D.getName (D.types x).typemap name' = D.getName (D.types y).typemap name'

/-! ## The search -/

section
variable {D : Definitions L} {P : Addr → Prop} {U : List Addr} {depth : Nat} {typemap : L}

/-- The calls for these names add their types, with what the types lead to. -/
def Calls (D : Definitions L) (P : Addr → Prop) (U : List Addr) (depth : Nat) (typemap : L)
    (names : List String) : Prop :=
  ∀ name ∈ names, ∃ y, D.getName typemap name = some y ∧ ∀ list, outside U list < depth →
    ∃ list', D.addWithSpec depth y typemap list = some list' ∧ y ∈ list' ∧
      Explored D.Refers P list list'

/-- The list has the types of the names. -/
def Has (D : Definitions L) (typemap : L) (names : List String) (list : List Addr) : Prop :=
  ∀ name ∈ names, ∀ y, D.getName typemap name = some y → y ∈ list

theorem Has.append {names names' : List String} {list list' : List Addr}
    (h : Has D typemap names list) (h' : Has D typemap names' list') (hsub : list ⊆ list') :
    Has D typemap (names ++ names') list' := by
  intro name hn y hy
  rcases List.mem_append.1 hn with hn | hn
  · exact hsub (h name hn y hy)
  · exact h' name hn y hy

/-- What looking at a part of a specification comes to. -/
def Adds (D : Definitions L) (P : Addr → Prop) (typemap : L) (names : List String)
    (list : List Addr) (r : Option (List Addr)) : Prop :=
  ∃ list', r = some list' ∧ Has D typemap names list' ∧ Explored D.Refers P list list'

theorem Adds.none (list : List Addr) : Adds D P typemap [] list (some list) :=
  ⟨list, rfl, fun _ hn => absurd hn List.not_mem_nil, .refl list⟩

theorem Adds.both {names names' : List String} {list : List Addr} {r : Option (List Addr)}
    {f : List Addr → Option (List Addr)} (h : Adds D P typemap names list r)
    (h' : ∀ list', list ⊆ list' → Adds D P typemap names' list' (f list')) :
    Adds D P typemap (names ++ names') list (r.bind f) := by
  obtain ⟨list', rfl, hhas, hex⟩ := h
  obtain ⟨list'', hf, hhas', hex'⟩ := h' list' hex.grown
  exact ⟨list'', hf, hhas.append hhas' hex'.grown, hex.trans hex'⟩

theorem addName_adds (name : String) (list : List Addr) (hd : outside U list < depth)
    (hc : Calls D P U depth typemap (if isBuiltIn name then [] else [name])) :
    Adds D P typemap (if isBuiltIn name then [] else [name]) list
      (D.addName (D.addWithSpec depth) typemap name list) := by
  unfold Definitions.addName
  by_cases hb : isBuiltIn name
  · rw [if_pos hb, if_pos hb]
    exact .none list
  · rw [if_neg hb] at hc ⊢
    rw [if_neg hb]
    obtain ⟨y, hy, hcall⟩ := hc name (List.mem_singleton.2 rfl)
    obtain ⟨list', hr, hmem, hex⟩ := hcall list hd
    rw [hy]
    refine ⟨list', hr, fun n hn z hz => ?_, hex⟩
    obtain rfl := List.mem_singleton.1 hn
    cases hy.symm.trans hz
    exact hmem

theorem Calls.left {names names' : List String}
    (h : Calls D P U depth typemap (names ++ names')) : Calls D P U depth typemap names :=
  fun name hn => h name (List.mem_append_left _ hn)

theorem Calls.right {names names' : List String}
    (h : Calls D P U depth typemap (names ++ names')) : Calls D P U depth typemap names' :=
  fun name hn => h name (List.mem_append_right _ hn)

mutual

theorem getTypeList2_adds (tree : SyntaxTree) (list : List Addr) (hw : Whole tree)
    (hd : outside U list < depth) (hc : Calls D P U depth typemap (mentions tree)) :
    Adds D P typemap (mentions tree) list
      (D.getTypeList2 (D.addWithSpec depth) typemap tree list) := by
  match tree with
  | .null => exact hw.elim
  | .identifier s _ => exact addName_adds s list hd hc
  | .pointer s => exact addName_adds s list hd hc
  | .typeSpec _ d => exact getTypeList2_adds d list hw hd hc
  | .bracket d => exact getTypeList2_adds d list hw hd hc
  | .productType bs => exact getTypeLists_adds bs list hw hd hc
  | .sumType bs => exact getTypeLists_adds bs list hw hd hc
  | .typeFunction a v =>
    exact (getTypeList2_adds a list hw.1 hd hc.left).both fun list' hsub =>
      getTypeList2_adds v list' hw.2 (Nat.lt_of_le_of_lt (outside_mono hsub) hd) hc.right
  | .blank | .nil | .integer _ | .string _ | .sequentialDefs _ | .functionDef _ _ _
  | .parameterList _ _ | .functionCall _ _ | .argumentList _ _ | .operator _ _ _ | .tuple _
  | .ifExpr _ _ _ | .index _ _ | .letExpr _ _ _ => exact .none list

theorem getTypeLists_adds (trees : List SyntaxTree) (list : List Addr) (hw : AllWhole trees)
    (hd : outside U list < depth) (hc : Calls D P U depth typemap (allMentions trees)) :
    Adds D P typemap (allMentions trees) list
      (D.getTypeLists (D.addWithSpec depth) typemap trees list) := by
  match trees with
  | [] => exact .none list
  | tree :: trees =>
    exact (getTypeList2_adds tree list hw.1 hd hc.left).both fun list' hsub =>
      getTypeLists_adds trees list' hw.2 (Nat.lt_of_le_of_lt (outside_mono hsub) hd) hc.right

end

/-- Adding a type that is not in the list adds its type too. -/
theorem addTypeToTypeList_new {v : Addr} {list : List Addr} (hv : v ∉ list)
    (hobj : ∀ o, (D.types v).typeobj = some o →
      ∃ list', D.addWithSpec depth o (D.types o).typemap (list ++ [v]) = some list' ∧ o ∈ list' ∧
        Explored D.Refers P (list ++ [v]) list') :
    ∃ list', D.addTypeToTypeList (D.addWithSpec depth) v list = some (true, list') ∧
      (∀ o, (D.types v).typeobj = some o → o ∈ list') ∧
        Explored D.Refers P (list ++ [v]) list' := by
  unfold Definitions.addTypeToTypeList
  rw [if_neg hv]
  cases ho : (D.types v).typeobj with
  | none => exact ⟨_, rfl, (fun _ h => absurd h (Option.some_ne_none _).symm), .refl _⟩
  | some o =>
    obtain ⟨list', hr, hmem, hex⟩ := hobj o ho
    refine ⟨list', ?_, fun o' h => ?_, hex⟩
    · show Option.map _ (D.addWithSpec depth o (D.types o).typemap (list ++ [v])) = _
      rw [hr]
      rfl
    · cases h
      exact hmem

/-- A call adds the type and what it leads to, if it may go as deep as there are types left. -/
theorem addWithSpec_explores (hL : Layer D U) (depth : Nat) : ∀ v typemap list, v ∈ U →
    (∃ x ∈ U, (D.types x).typemap = typemap) →
    (∀ name ∈ mentions (D.types v).typeSpec,
      D.getName typemap name = D.getName (D.types v).typemap name) →
    outside U list < depth → ∃ list', D.addWithSpec depth v typemap list = some list' ∧
      v ∈ list' ∧ Explored D.Refers (ReflTransGen D.Refers v) list list' := by
  induction depth with
  | zero => exact fun _ _ _ _ _ _ hd => absurd hd (Nat.not_lt_zero _)
  | succ depth ih =>
    intro v typemap list hv hm halike hd
    unfold Definitions.addWithSpec
    by_cases hin : v ∈ list
    · have hadd : D.addTypeToTypeList (D.addWithSpec depth) v list = some (false, list) :=
        if_pos hin
      rw [hadd]
      exact ⟨list, rfl, hin, .refl list⟩
    · have hd₁ : outside U (list ++ [v]) < depth :=
        Nat.lt_of_lt_of_le (outside_enter hv hin) (Nat.le_of_lt_succ hd)
      obtain ⟨list₁, hadd, hobj, hex₁⟩ := @addTypeToTypeList_new L D
        (ReflTransGen D.Refers v) depth v list hin fun o ho => by
          have hvo : D.Refers v o := Or.inl ho
          have hoU := hL.closed v hv o hvo
          obtain ⟨list₁, hr, hmem, hex⟩ :=
            ih o _ (list ++ [v]) hoU ⟨o, hoU, rfl⟩ (fun _ _ => rfl) hd₁
          exact ⟨list₁, hr, hmem, hex.mono fun x hx => .head hvo hx⟩
      have hcalls : Calls D (ReflTransGen D.Refers v) U depth typemap
          (mentions (D.types v).typeSpec) := by
        intro name hn
        obtain ⟨y, hy⟩ := hL.bound v hv name hn
        have hvy : D.Refers v y := Or.inr ⟨name, hn, hy⟩
        have hy' : D.getName typemap name = some y := (halike name hn).trans hy
        refine ⟨y, hy', fun list' hd' => ?_⟩
        obtain ⟨x, hx, rfl⟩ := hm
        obtain ⟨list'', hr, hmem, hex⟩ :=
          ih y _ list' (hL.closed v hv y hvy) ⟨x, hx, rfl⟩ (hL.alike x hx name y hy') hd'
        exact ⟨list'', hr, hmem, hex.mono fun z hz => .head hvy hz⟩
      obtain ⟨list₂, hspec, hhas, hex₂⟩ := getTypeList2_adds (D.types v).typeSpec list₁
        (hL.whole v hv) (Nat.lt_of_le_of_lt (outside_mono hex₁.grown) hd₁) hcalls
      rw [hadd]
      refine ⟨list₂, hspec, hex₂.grown (hex₁.grown (List.mem_append_right _ (.head _))),
        (hex₁.trans hex₂).enter hin .refl fun y hy => ?_⟩
      rcases hy with ho | ⟨name, hn, hy⟩
      · exact hex₂.grown (hobj y ho)
      · exact hhas name hn y ((halike name hn).trans hy)

theorem Whole.not_isNull {tree : SyntaxTree} (h : Whole tree) : tree.isNull = false := by
  cases tree with
  | null => exact h.elim
  | _ => rfl

/-- With an empty list, the first type is added as all others are. -/
theorem getTypeList_eq {t : Addr} (h : Whole (D.types t).typeSpec) :
    D.getTypeList depth t = D.addWithSpec (depth + 1) t (D.types t).typemap [] := by
  unfold Definitions.getTypeList Definitions.addWithSpec Definitions.addTypeToTypeList
  rw [h.not_isNull, if_neg List.not_mem_nil]
  cases (D.types t).typeobj with
  | none => rfl
  | some o =>
    show (Option.map _ (D.addWithSpec depth o _ _)).bind _ =
      (Option.map _ (D.addWithSpec depth o _ _)).bind _
    cases D.addWithSpec depth o (D.types o).typemap ([] ++ [t]) <;> rfl

/-- The list has the type and what it leads to, each once. -/
theorem getTypeList_closure (hL : Layer D U) {t : Addr} (ht : t ∈ U) (hd : U.length ≤ depth) :
    ∃ list, D.getTypeList depth t = some list ∧ list.Nodup ∧
      ∀ y, y ∈ list ↔ ReflTransGen D.Refers t y := by
  have hout : outside U ([] : List Addr) < depth + 1 :=
    Nat.lt_succ_of_le (Nat.le_trans (outside_le_length U []) hd)
  obtain ⟨list, hr, hmem, hex⟩ :=
    addWithSpec_explores hL (depth + 1) t _ [] ht ⟨t, ht, rfl⟩ (fun _ _ => rfl) hout
  rw [getTypeList_eq (hL.whole t ht)]
  exact ⟨list, hr, hex.nodup List.nodup_nil, hex.mem_iff hmem⟩

end

end

end PyLinda.TypeList
