import PyLinda.Minimal.SyntaxTree

/-!
# The grammar

`minimal_parser.y` on trees: the tokens, the actions of the rules for expressions and the
derivations with them. A parser takes one of the derivations of a text, whichever way it
resolves the conflicts of the grammar.
-/

namespace PyLinda.Grammar

open SyntaxTree

/-- The tokens of `minimal_lex.l`. -/
inductive Token where
  | id (string : String)
  | integer (integer : Int)
  | string (string : String)
  | typeSpec
  | function
  | operator (string : String)
  | semicolon
  | comma
  | eq
  | openB
  | closeB
  | openSqB
  | closeSqB
  | kwIf
  | kwThen
  | kwElse
  | kwEndif
  | testOp (string : String)
  | kwLet

/-! ## Actions -/

/-- `strcmp($1->string, "Nil")`, in `typespec` and in `value`. -/
def idOrNil (s : String) : SyntaxTree := if s = "Nil" then nil else identifier s none

/-- `Minimal_SyntaxTree_addToTuple`, which only complains about what is no tuple. -/
def addToTuple : SyntaxTree → SyntaxTree → SyntaxTree
  | tuple ts, t => tuple (ts ++ [t])
  | t, _ => t

/-- `$3->tuple`, up to `$3->size`. -/
def elements : SyntaxTree → List SyntaxTree
  | tuple ts => ts
  | _ => []

/-- `Minimal_SyntaxTree_createTuple(1)` and `setTuple` of its element. -/
def createTuple1 (t : SyntaxTree) : SyntaxTree := tuple [t]

/-- The action of `tuple`: the elements of `tuple2` are put behind the first. -/
def tupleAction (t1 t3 : SyntaxTree) : SyntaxTree :=
  (elements t3).foldl addToTuple (createTuple1 t1)

/-- The action of the first rule of `tuple2`. The blank that is made before the expression is
`$1`; the expression is `$2`. -/
def tuple2Action (t1 _t2 : SyntaxTree) : SyntaxTree := createTuple1 t1

/-! ## Derivations -/

/-- The symbols below `expr`. -/
inductive Symbol where
  | expr
  | value
  | functionCall
  | argumentList
  | tuple
  | tuple2
  | ifExpr
  | testExpr
  | letExpr

/-- The tokens can be derived from the symbol, with this semantic value. -/
inductive Derives : Symbol → List Token → SyntaxTree → Prop
  | value {a t} : Derives .value a t → Derives .expr a t
  | unit : Derives .expr [.openB, .closeB] (tuple [])
  | brackets {a t} : Derives .expr a t → Derives .expr (.openB :: a ++ [.closeB]) t
  | index {a b t u} : Derives .expr a t → Derives .expr b u →
    Derives .expr (a ++ .openSqB :: b ++ [.closeSqB]) (index t u)
  | operator {a b t u} (op : String) : Derives .expr a t → Derives .expr b u →
    Derives .expr (a ++ .operator op :: b) (operator op t u)
  | functionCall {a t} : Derives .functionCall a t → Derives .expr a t
  | tuple {a t} : Derives .tuple a t → Derives .expr a t
  | ifExpr {a t} : Derives .ifExpr a t → Derives .expr a t
  | testExpr {a t} : Derives .testExpr a t → Derives .expr a t
  | letExpr {a t} : Derives .letExpr a t → Derives .expr a t
  | valueId (s : String) : Derives .value [.id s] (idOrNil s)
  | valueInteger (i : Int) : Derives .value [.integer i] (integer i)
  | valueString (s : String) : Derives .value [.string s] (string s)
  | call {a t} : Derives .expr a t →
    Derives .functionCall (a ++ [.openB, .closeB]) (functionCall t null)
  | callArguments {a b t u} : Derives .expr a t → Derives .argumentList b u →
    Derives .functionCall (a ++ .openB :: b ++ [.closeB]) (functionCall t u)
  | argument {a t l} : Derives .expr a t → createArgumentList1 t = some l →
    Derives .argumentList a l
  | arguments {a b t u l} : Derives .expr a t → Derives .argumentList b u →
    createArgumentList2 t u = some l → Derives .argumentList (a ++ .comma :: b) l
  | tupleOf {a b t u} : Derives .expr a t → Derives .tuple2 b u →
    Derives .tuple (a ++ .comma :: b) (tupleAction t u)
  | second {a t} : Derives .expr a t → Derives .tuple2 a (tuple2Action .blank t)
  | further {a b t u} : Derives .tuple2 a t → Derives .expr b u →
    Derives .tuple2 (a ++ .comma :: b) (addToTuple t u)
  | condition {a b c t u v} : Derives .expr a t → Derives .expr b u → Derives .expr c v →
    Derives .ifExpr (.kwIf :: a ++ .kwThen :: b ++ .kwElse :: c ++ [.kwEndif]) (ifExpr t u v)
  | test {a b t u} (op : String) : Derives .expr a t → Derives .expr b u →
    Derives .testExpr (a ++ .testOp op :: b) (operator op t u)
  | binding {a b t u} (s : String) : Derives .expr a t → Derives .expr b u →
    Derives .letExpr (.kwLet :: .id s :: .eq :: a ++ b) (letExpr (identifier s none) t u)

/-! ## Tuples -/

theorem foldl_addToTuple (ts us : List SyntaxTree) :
    us.foldl addToTuple (tuple ts) = tuple (ts ++ us) := by
  induction us generalizing ts with
  | nil => rw [List.append_nil, List.foldl_nil]
  | cons u us ih =>
    show us.foldl addToTuple (tuple (ts ++ [u])) = _
    rw [ih, List.append_assoc]
    rfl

theorem tupleAction_tuple (t : SyntaxTree) (us : List SyntaxTree) :
    tupleAction t (tuple us) = tuple (t :: us) :=
  foldl_addToTuple [t] us

/-- What is said of the value of a symbol: a tuple is empty or has a blank in the second place,
the tuple for `tuple2` has it in the first; nothing else in an expression is blank. -/
def Shape : Symbol → SyntaxTree → Prop
  | .tuple2, t => ∃ ts, t = tuple (.blank :: ts)
  | .argumentList, _ => True
  | _, t => t ≠ .blank ∧ ∀ ts, t = tuple ts → ts = [] ∨ ∃ t us, ts = t :: .blank :: us

theorem Derives.shape {x : Symbol} {a : List Token} {t : SyntaxTree} (h : Derives x a t) :
    Shape x t := by
  induction h with
  | value _ ih | functionCall _ ih | tuple _ ih | ifExpr _ ih | testExpr _ ih | letExpr _ ih
  | brackets _ ih => exact ih
  | unit =>
    refine ⟨fun h => (by cases h), fun ts h => ?_⟩
    cases h
    exact .inl rfl
  | valueId s =>
    show idOrNil s ≠ .blank ∧ _
    unfold idOrNil
    split
    · exact ⟨fun h => (by cases h), fun ts h => (by cases h)⟩
    · exact ⟨fun h => (by cases h), fun ts h => (by cases h)⟩
  | argument | arguments => trivial
  | @tupleOf a b t u _ _ _ ih =>
    obtain ⟨ts, rfl⟩ := ih
    show tupleAction t _ ≠ .blank ∧ _
    rw [tupleAction_tuple]
    refine ⟨fun h => (by cases h), fun us h => ?_⟩
    cases h
    exact .inr ⟨t, ts, rfl⟩
  | second => exact ⟨[], rfl⟩
  | @further a b t u _ _ ih =>
    obtain ⟨ts, rfl⟩ := ih
    exact ⟨ts ++ [u], rfl⟩
  | _ => exact ⟨fun h => (by cases h), fun ts h => (by cases h)⟩

/-- `(e1, ..., en)`. -/
def tupleText (es : List (List Token)) : List Token :=
  .openB :: List.intercalate [.comma] es ++ [.closeB]

/-- However the text of a tuple of two or more elements is parsed, the tree is not the tuple of
the trees of the elements. -/
theorem tuple_never {es : List (List Token × SyntaxTree)}
    (hes : ∀ e ∈ es, Derives .expr e.1 e.2) (hn : 2 ≤ es.length) :
    ¬ Derives .expr (tupleText (es.map Prod.fst)) (tuple (es.map Prod.snd)) := by
  intro h
  cases h.shape.2 _ rfl with
  | inl hnil =>
    rw [List.map_eq_nil_iff] at hnil
    rw [hnil] at hn
    cases hn
  | inr hsecond =>
    obtain ⟨t, us, hts⟩ := hsecond
    obtain ⟨e1, es', rfl, _, hrest⟩ := List.map_eq_cons_iff.1 hts
    obtain ⟨e2, es'', rfl, hblank, _⟩ := List.map_eq_cons_iff.1 hrest
    have hshape := (hes e2 (List.mem_cons_of_mem _ List.mem_cons_self)).shape
    exact hshape.1 hblank

theorem tuple_never_two : ¬ Derives .expr
    (tupleText ([([.integer 1], integer 1), ([.integer 2], integer 2)].map Prod.fst))
    (tuple ([([Token.integer 1], integer 1), ([.integer 2], integer 2)].map Prod.snd)) :=
  tuple_never (fun e he => by
    cases List.mem_cons.1 he with
    | inl h =>
      rw [h]
      exact .value (.valueInteger 1)
    | inr h =>
      rw [List.mem_singleton.1 h]
      exact .value (.valueInteger 2)) (by decide)

/-- `(1, 2)` is the tuple of 1 and a blank. -/
theorem second_blank :
    Derives .expr [.openB, .integer 1, .comma, .integer 2, .closeB] (tuple [integer 1, .blank]) ∧
      ¬ Derives .expr [.openB, .integer 1, .comma, .integer 2, .closeB]
        (tuple [integer 1, integer 2]) := by
  have h1 : Derives .expr [.integer 1] (integer 1) := .value (.valueInteger 1)
  have h2 : Derives .expr [.integer 2] (integer 2) := .value (.valueInteger 2)
  refine ⟨.brackets (.tuple (.tupleOf h1 (.second h2))), fun h => ?_⟩
  cases h.shape.2 _ rfl with
  | inl h => cases h
  | inr h =>
    obtain ⟨t, us, hts⟩ := h
    cases hts

end PyLinda.Grammar
