import PyLinda.Lib.ShiftReduce
import PyLinda.Minimal.Grammar

/-!
# Parsing types

The part of the parser that reads a `typespec`: its states are sets of places in the rules for
`typespec` and `value`. Where a state could shift or reduce it shifts, and of two reductions it
takes the rule that comes first.
-/

namespace PyLinda.TypeParser

open Lib.ShiftReduce
open Grammar (Token idOrNil)
open SyntaxTree

/-! ## Actions -/

/-- `->string`. -/
def stringOf : SyntaxTree → String
  | .identifier s _ => s
  | _ => ""

/-- `addToProductType`. -/
def addToProductType : SyntaxTree → SyntaxTree → SyntaxTree
  | .productType ts, v => .productType (ts ++ [v])
  | t, _ => t

/-- `prependToProductType`. -/
def prependToProductType : SyntaxTree → SyntaxTree → SyntaxTree
  | .productType ts, v => .productType (v :: ts)
  | t, _ => t

/-- `addToSumType`. -/
def addToSumType : SyntaxTree → SyntaxTree → SyntaxTree
  | .sumType ts, v => .sumType (ts ++ [v])
  | t, _ => t

/-- `prependToSumType`. -/
def prependToSumType : SyntaxTree → SyntaxTree → SyntaxTree
  | .sumType ts, v => .sumType (v :: ts)
  | t, _ => t

def isProductType : SyntaxTree → Bool
  | .productType _ => true
  | _ => false

def isSumType : SyntaxTree → Bool
  | .sumType _ => true
  | _ => false

/-- `typespec YY_OPERATOR typespec`. -/
def operatorAction (t1 t2 t3 : SyntaxTree) : SyntaxTree :=
  if stringOf t2 = "*" then
    if isProductType t1 then addToProductType t1 t3
    else if isProductType t3 then prependToProductType t3 t1
    else addToProductType (addToProductType (.productType []) t1) t3
  else if stringOf t2 = "+" then
    if isSumType t1 then addToSumType t1 t3
    -- the result is `$1`, the sum is lost
    else if isSumType t2 then t1
    else addToSumType (addToSumType (.sumType []) t1) t3
  else .blank -- "Type operator '%s' is not defined."

/-- `typespec YY_OPERATOR value`. -/
def timesAction (t1 t2 t3 : SyntaxTree) : SyntaxTree :=
  match t3 with
  | .integer i =>
    if stringOf t2 = "*" then .productType (List.replicate i.toNat t1)
    else if stringOf t2 = "+" then .sumType (List.replicate i.toNat t1)
    else .blank
  | _ => .blank -- "Type multiplication must involve an integer."

/-- `YY_ID YY_OPENB YY_ID YY_CLOSEB`. -/
def pointerAction (t1 t3 : SyntaxTree) : SyntaxTree :=
  if stringOf t1 = "ptr" then .pointer (stringOf t3) else .blank

/-- What the lexer assigns to `yylval`; the other tokens are not looked at. -/
def valueOf : Token → SyntaxTree
  | .id s => .identifier s none
  | .integer i => .integer i
  | .string s => .string s
  | .operator s => .identifier s none
  | .testOp s => .identifier s none
  | _ => .null

/-! ## States -/

/-- What has been read, in the rules it can belong to. -/
inductive State where
  | start -- `YY_ID YY_TYPESPEC .`
  | openB -- `YY_OPENB .`
  | id -- `YY_ID .`
  | spec -- `YY_ID YY_TYPESPEC typespec .`
  | unit -- `YY_OPENB YY_CLOSEB .`
  | inner -- `YY_OPENB typespec .`
  | bracket -- `YY_OPENB typespec YY_CLOSEB .`
  | ptr -- `YY_ID YY_OPENB .`
  | ptrId -- `YY_ID YY_OPENB YY_ID .`
  | ptrEnd -- `YY_ID YY_OPENB YY_ID YY_CLOSEB .`
  | arrow -- `typespec YY_FUNCTION .`
  | arrowSpec -- `typespec YY_FUNCTION typespec .`
  | op -- `typespec YY_OPERATOR .`
  | opId -- `typespec YY_OPERATOR YY_ID .`
  | opSpec -- `typespec YY_OPERATOR typespec .`
  | opValue -- `typespec YY_OPERATOR value .`
  | integer -- `YY_INTEGER .`
  | string -- `YY_STRING .`

namespace State

/-- Where a `typespec` leads. -/
def gotoSpec : State → Option State
  | start => some spec
  | openB => some inner
  | arrow => some arrowSpec
  | op => some opSpec
  | _ => none

/-- Where a `value` leads. -/
def gotoValue : State → Option State
  | op => some opValue
  | _ => none

end State

/-- What can follow a `typespec`. -/
def follows : Token → Bool
  | .function | .operator _ | .semicolon | .closeB => true
  | _ => false

/-- A reduction to `typespec`. -/
def reduceAt (t : Token) (n : Nat) (action : List SyntaxTree → SyntaxTree) :
    Move State SyntaxTree :=
  if follows t then .reduce n action State.gotoSpec else .error

/-- A state in which a `typespec` can begin. -/
def beginSpec : Token → Move State SyntaxTree
  | .openB => .shift .openB
  | .id _ => .shift .id
  | _ => .error

def one (f : SyntaxTree → SyntaxTree) : List SyntaxTree → SyntaxTree
  | [t1] => f t1
  | _ => .null

def three (f : SyntaxTree → SyntaxTree → SyntaxTree → SyntaxTree) :
    List SyntaxTree → SyntaxTree
  | [t1, t2, t3] => f t1 t2 t3
  | _ => .null

def four (f : SyntaxTree → SyntaxTree → SyntaxTree → SyntaxTree → SyntaxTree) :
    List SyntaxTree → SyntaxTree
  | [t1, t2, t3, t4] => f t1 t2 t3 t4
  | _ => .null

/-- The moves of the states. -/
def move : State → Token → Move State SyntaxTree
  | .start, t => beginSpec t
  | .openB, .closeB => .shift .unit
  | .openB, t => beginSpec t
  | .id, .openB => .shift .ptr
  | .id, t => reduceAt t 1 (one fun t1 => idOrNil (stringOf t1))
  | .spec, .function => .shift .arrow
  | .spec, .operator _ => .shift .op
  | .spec, .semicolon => .accept
  | .spec, _ => .error
  | .unit, t => reduceAt t 2 fun _ => .productType []
  | .inner, .function => .shift .arrow
  | .inner, .operator _ => .shift .op
  | .inner, .closeB => .shift .bracket
  | .inner, _ => .error
  | .bracket, t => reduceAt t 3 (three fun _ t2 _ => .bracket t2)
  | .ptr, .id _ => .shift .ptrId
  | .ptr, _ => .error
  | .ptrId, .closeB => .shift .ptrEnd
  | .ptrId, _ => .error
  | .ptrEnd, t => reduceAt t 4 (four fun t1 _ t3 _ => pointerAction t1 t3)
  | .arrow, t => beginSpec t
  | .arrowSpec, .function => .shift .arrow
  | .arrowSpec, .operator _ => .shift .op
  | .arrowSpec, t => reduceAt t 3 (three fun t1 _ t3 => .typeFunction t1 t3)
  | .op, .openB => .shift .openB
  | .op, .id _ => .shift .opId
  | .op, .integer _ => .shift .integer
  | .op, .string _ => .shift .string
  | .op, _ => .error
  | .opId, .openB => .shift .ptr
  -- `value` is the other rule that ends here
  | .opId, t => reduceAt t 1 (one fun t1 => idOrNil (stringOf t1))
  | .opSpec, .function => .shift .arrow
  | .opSpec, .operator _ => .shift .op
  | .opSpec, t => reduceAt t 3 (three operatorAction)
  | .opValue, t => reduceAt t 3 (three timesAction)
  | .integer, _ => .reduce 1 (one id) State.gotoValue
  | .string, _ => .reduce 1 (one id) State.gotoValue

def machine : Machine State Token SyntaxTree := ⟨move, valueOf⟩

/-- The text in front of a semicolon is parsed to the tree. -/
def Parses (text : List Token) (t : SyntaxTree) : Prop :=
  machine.Accepts ⟨[(.start, .null)], text ++ [.semicolon]⟩ t

/-! ## Atomic types -/

/-- Between brackets the text is read as a type with this tree. -/
def Bracketed (text : List Token) (t : SyntaxTree) : Prop := ∀ v below rest,
  machine.Star ⟨(.openB, v) :: below, text ++ .closeB :: rest⟩
    ⟨(.inner, t) :: (.openB, v) :: below, .closeB :: rest⟩

/-- The atomic types: names, `Nil`, pointers and types in brackets. -/
inductive Atom : List Token → SyntaxTree → Prop
  | name (s : String) : s ≠ "Nil" → Atom [.id s] (.identifier s none)
  | nil : Atom [.id "Nil"] .nil
  | pointer (s : String) : Atom [.id "ptr", .openB, .id s, .closeB] (.pointer s)
  | bracket {text : List Token} {t : SyntaxTree} : Bracketed text t →
    Atom (.openB :: (text ++ [.closeB])) (.bracket t)

theorem reduceAt_follows {f : Token} (hf : follows f = true) (n : Nat)
    (action : List SyntaxTree → SyntaxTree) :
    reduceAt f n action = .reduce n action State.gotoSpec :=
  if_pos hf

/-- Where a type can begin, a name is followed by what makes it a pointer, or it is a type. -/
theorem begin_id {q q' : State} (hq : q.gotoSpec = some q') (s : String) :
    ∃ p, move q (.id s) = .shift p ∧ move p .openB = .shift .ptr ∧
      ∀ f, follows f = true →
        move p f = .reduce 1 (one fun t1 => idOrNil (stringOf t1)) State.gotoSpec := by
  have hid : ∀ p, p = .id ∨ p = .opId → ∀ f, follows f = true →
      move p f = .reduce 1 (one fun t1 => idOrNil (stringOf t1)) State.gotoSpec := by
    intro p hp f hf
    have hr := reduceAt_follows hf 1 (one fun t1 => idOrNil (stringOf t1))
    cases hp with
    | inl h =>
      subst h
      cases f <;> first | exact hr | cases hf
    | inr h =>
      subst h
      cases f <;> first | exact hr | cases hf
  cases q with
  | start => exact ⟨.id, rfl, rfl, hid _ (.inl rfl)⟩
  | openB => exact ⟨.id, rfl, rfl, hid _ (.inl rfl)⟩
  | arrow => exact ⟨.id, rfl, rfl, hid _ (.inl rfl)⟩
  | op => exact ⟨.opId, rfl, rfl, hid _ (.inr rfl)⟩
  | _ => cases hq

theorem begin_open {q q' : State} (hq : q.gotoSpec = some q') :
    move q .openB = .shift .openB := by
  cases q with
  | start | openB | arrow | op => rfl
  | _ => cases hq

/-- An operator goes on with the type before it. -/
theorem spec_operator {q q' : State} (hq : q.gotoSpec = some q') (s : String) :
    move q' (.operator s) = .shift .op := by
  cases q <;> cases hq <;> rfl

theorem bracket_reduce {f : Token} (hf : follows f = true) :
    move .bracket f = .reduce 3 (three fun _ t2 _ => .bracket t2) State.gotoSpec :=
  reduceAt_follows hf 3 (three fun _ t2 _ => .bracket t2)

theorem ptrEnd_reduce {f : Token} (hf : follows f = true) :
    move .ptrEnd f = .reduce 4 (four fun t1 _ t3 _ => pointerAction t1 t3) State.gotoSpec :=
  reduceAt_follows hf 4 (four fun t1 _ t3 _ => pointerAction t1 t3)

/-- What lies on top of a state in which a type can begin becomes a type. -/
theorem reduce_star {q p p' : State} (v w : SyntaxTree) (top below : List (State × SyntaxTree))
    {f : Token} (rest : List Token) {action : List SyntaxTree → SyntaxTree}
    (h : move q f = .reduce (top.length + 1) action State.gotoSpec)
    (hp : p.gotoSpec = some p') :
    machine.Star ⟨(q, v) :: (top ++ (p, w) :: below), f :: rest⟩
      ⟨(p', action (((q, v) :: top).map Prod.snd).reverse) :: (p, w) :: below, f :: rest⟩ :=
  .reduce top h hp

theorem shift_star {q q' : State} (v : SyntaxTree) (below : List (State × SyntaxTree))
    {t : Token} (rest : List Token) (h : move q t = .shift q') :
    machine.Star ⟨(q, v) :: below, t :: rest⟩
      ⟨(q', valueOf t) :: (q, v) :: below, rest⟩ :=
  .shift h

/-- A name that is not followed by a bracket is a type. -/
theorem name_star {q q' : State} (hq : q.gotoSpec = some q') (v : SyntaxTree)
    (below : List (State × SyntaxTree)) (s : String) {f : Token} (hf : follows f = true)
    (rest : List Token) :
    machine.Star ⟨(q, v) :: below, .id s :: f :: rest⟩
      ⟨(q', idOrNil s) :: (q, v) :: below, f :: rest⟩ := by
  obtain ⟨p, hshift, _, hreduce⟩ := begin_id hq s
  exact (shift_star v below _ hshift).trans
    (reduce_star (.identifier s none) v [] below rest (hreduce f hf) hq)

/-- An atomic type is read as its tree. -/
theorem Atom.star {text : List Token} {t : SyntaxTree} (h : Atom text t) {q q' : State}
    (hq : q.gotoSpec = some q') (v : SyntaxTree) (below : List (State × SyntaxTree)) {f : Token}
    (hf : follows f = true) (rest : List Token) :
    machine.Star ⟨(q, v) :: below, text ++ f :: rest⟩
      ⟨(q', t) :: (q, v) :: below, f :: rest⟩ := by
  cases h with
  | name s hs =>
    have hname := name_star hq v below s hf rest
    rw [idOrNil, if_neg hs] at hname
    exact hname
  | nil => exact name_star hq v below "Nil" hf rest
  | pointer s =>
    obtain ⟨p, hshift, hopen, _⟩ := begin_id hq "ptr"
    have h1 := shift_star v below (.openB :: .id s :: .closeB :: f :: rest) hshift
    have h2 := shift_star (.identifier "ptr" none) ((q, v) :: below)
      (.id s :: .closeB :: f :: rest) hopen
    have h3 := @shift_star .ptr .ptrId .null ((p, .identifier "ptr" none) :: (q, v) :: below)
      (.id s) (.closeB :: f :: rest) rfl
    have h4 := @shift_star .ptrId .ptrEnd (.identifier s none)
      ((.ptr, .null) :: (p, .identifier "ptr" none) :: (q, v) :: below) .closeB (f :: rest) rfl
    have h5 := reduce_star .null v [(.ptrId, .identifier s none), (.ptr, .null),
      (p, .identifier "ptr" none)] below rest (ptrEnd_reduce hf) hq
    exact h1.trans (h2.trans (h3.trans (h4.trans h5)))
  | @bracket text t hb =>
    have hin := hb .null ((q, v) :: below) (f :: rest)
    have hclose := @shift_star .inner .bracket t ((.openB, .null) :: (q, v) :: below) .closeB
      (f :: rest) rfl
    have hreduce := reduce_star .null v [(.inner, t), (.openB, .null)] below rest
      (bracket_reduce hf) hq
    show machine.Star ⟨(q, v) :: below, .openB :: (text ++ [.closeB] ++ f :: rest)⟩ _
    rw [List.append_assoc]
    exact (shift_star v below _ (begin_open hq)).trans (hin.trans (hclose.trans hreduce))

/-! ## Chains -/

/-- `t1 op t2 op ... op tn`. -/
def join (op : String) (texts : List (List Token)) : List Token :=
  List.intercalate [.operator op] texts

/-- What the actions make of the operands: the last two are taken together first. -/
def combine (op : String) : List SyntaxTree → SyntaxTree
  | [] => .null
  | [t] => t
  | t :: u :: ts => operatorAction t (.identifier op none) (combine op (u :: ts))

/-- What ends a chain of operators. -/
def ends : Token → Bool
  | .semicolon | .closeB => true
  | _ => false

theorem follows_of_ends {f : Token} (hf : ends f = true) : follows f = true := by
  cases f <;> first | rfl | cases hf

theorem opSpec_reduce {f : Token} (hf : ends f = true) :
    move .opSpec f = .reduce 3 (three operatorAction) State.gotoSpec := by
  have hr := reduceAt_follows (follows_of_ends hf) 3 (three operatorAction)
  cases f <;> first | exact hr | cases hf

theorem join_cons (op : String) (a b : List Token) (texts : List (List Token)) :
    join op (a :: b :: texts) = a ++ .operator op :: join op (b :: texts) := by
  unfold join
  rw [List.intercalate_cons_cons, List.append_assoc]
  rfl

/-- A chain of atomic types is read from right to left. -/
theorem chain_star (op : String) {atoms : List (List Token × SyntaxTree)}
    (hatoms : ∀ a ∈ atoms, Atom a.1 a.2) (hne : atoms ≠ []) {q q' : State}
    (hq : q.gotoSpec = some q') (v : SyntaxTree) (below : List (State × SyntaxTree)) {f : Token}
    (hf : ends f = true) (rest : List Token) :
    machine.Star ⟨(q, v) :: below, join op (atoms.map Prod.fst) ++ f :: rest⟩
      ⟨(q', combine op (atoms.map Prod.snd)) :: (q, v) :: below, f :: rest⟩ := by
  induction atoms generalizing q q' v below with
  | nil => exact absurd rfl hne
  | cons a atoms ih =>
    have ha := hatoms a List.mem_cons_self
    cases atoms with
    | nil =>
      show machine.Star ⟨_, join op [a.1] ++ f :: rest⟩ _
      have hjoin : join op [a.1] = a.1 := List.intercalate_singleton
      rw [hjoin]
      exact ha.star hq v below (follows_of_ends hf) rest
    | cons b atoms =>
      show machine.Star ⟨_, join op (a.1 :: b.1 :: atoms.map Prod.fst) ++ f :: rest⟩ _
      rw [join_cons, List.append_assoc]
      have hfirst := ha.star hq v below (f := .operator op) rfl
        (join op (b.1 :: atoms.map Prod.fst) ++ f :: rest)
      have hop := shift_star a.2 ((q, v) :: below)
        (join op (b.1 :: atoms.map Prod.fst) ++ f :: rest) (spec_operator hq op)
      have hrest := ih (fun x hx => hatoms x (List.mem_cons_of_mem _ hx)) (List.cons_ne_nil _ _)
        (q := .op) rfl (.identifier op none) ((q', a.2) :: (q, v) :: below)
      have hreduce := reduce_star (combine op ((b :: atoms).map Prod.snd)) v
        [(.op, .identifier op none), (q', a.2)] below rest (opSpec_reduce hf) hq
      exact hfirst.trans (hop.trans (hrest.trans hreduce))

/-! ## What a chain is -/

/-- The product or sum of the types. -/
def flat (op : String) (ts : List SyntaxTree) : SyntaxTree :=
  if op = "*" then .productType ts else .sumType ts

theorem Atom.plain {text : List Token} {t : SyntaxTree} (h : Atom text t) :
    isProductType t = false ∧ isSumType t = false := by
  cases h <;> exact ⟨rfl, rfl⟩

theorem operatorAction_times {t u : SyntaxTree} (ht : isProductType t = false) :
    operatorAction t (.identifier "*" none) u =
      if isProductType u then prependToProductType u t else .productType [t, u] := by
  show (if isProductType t then _ else _) = _
  rw [ht]
  rfl

theorem operatorAction_plus {t u : SyntaxTree} (ht : isSumType t = false) :
    operatorAction t (.identifier "+" none) u = .sumType [t, u] := by
  show (if isSumType t then _ else _) = _
  rw [ht]
  rfl

/-- A product takes up the product on its right. -/
theorem combine_times {t u : SyntaxTree} {ts : List SyntaxTree}
    (hplain : ∀ x ∈ t :: u :: ts, isProductType x = false) :
    combine "*" (t :: u :: ts) = .productType (t :: u :: ts) := by
  induction ts generalizing t u with
  | nil =>
    show operatorAction t (.identifier "*" none) u = _
    rw [operatorAction_times (hplain t List.mem_cons_self),
      hplain u (List.mem_cons_of_mem _ List.mem_cons_self)]
    rfl
  | cons w ts ih =>
    show operatorAction t (.identifier "*" none) (combine "*" (u :: w :: ts)) = _
    rw [ih fun x hx => hplain x (List.mem_cons_of_mem _ hx),
      operatorAction_times (hplain t List.mem_cons_self)]
    rfl

/-- A sum does not. -/
theorem combine_plus {t u : SyntaxTree} (ts : List SyntaxTree) (ht : isSumType t = false) :
    combine "+" (t :: u :: ts) = .sumType [t, combine "+" (u :: ts)] :=
  operatorAction_plus ht

theorem combine_flat_iff {op : String} (hop : op = "*" ∨ op = "+") {ts : List SyntaxTree}
    (hplain : ∀ t ∈ ts, isProductType t = false ∧ isSumType t = false) (hn : 2 ≤ ts.length) :
    combine op ts = flat op ts ↔ op = "*" ∨ ts.length = 2 := by
  obtain ⟨t, u, ts, rfl⟩ : ∃ t u us, ts = t :: u :: us := by
    cases ts with
    | nil => exact absurd hn (by decide)
    | cons t ts =>
      cases ts with
      | nil => exact absurd hn (by decide : ¬ 2 ≤ 1)
      | cons u us => exact ⟨t, u, us, rfl⟩
  cases hop with
  | inl h =>
    subst h
    exact iff_of_true (combine_times fun x hx => (hplain x hx).1) (.inl rfl)
  | inr h =>
    subst h
    rw [combine_plus ts (hplain t List.mem_cons_self).2]
    show SyntaxTree.sumType [t, combine "+" (u :: ts)] = .sumType (t :: u :: ts) ↔ _
    cases ts with
    | nil => exact iff_of_true rfl (.inr rfl)
    | cons w ts =>
      refine iff_of_false (fun h => ?_) fun h => ?_
      · injection h with h
        cases congrArg List.length h
      · cases h with
        | inl h => exact absurd h (by decide)
        | inr h => cases h

/-- A chain of atomic types is parsed to what its actions make of it. -/
theorem chain_parses (op : String) {atoms : List (List Token × SyntaxTree)}
    (hatoms : ∀ a ∈ atoms, Atom a.1 a.2) (hne : atoms ≠ []) :
    Parses (join op (atoms.map Prod.fst)) (combine op (atoms.map Prod.snd)) :=
  Machine.run_star (chain_star op hatoms hne rfl .null [] rfl []) (Machine.accepts_of_accept rfl)

/-- A chain of atomic types is parsed to the product or the sum of them exactly if it is a
product, or a sum of two. -/
theorem parses_flat_iff {op : String} (hop : op = "*" ∨ op = "+")
    {atoms : List (List Token × SyntaxTree)} (hatoms : ∀ a ∈ atoms, Atom a.1 a.2)
    (hn : 2 ≤ atoms.length) :
    Parses (join op (atoms.map Prod.fst)) (flat op (atoms.map Prod.snd)) ↔
      op = "*" ∨ atoms.length = 2 := by
  have hne : atoms ≠ [] := fun h => by
    rw [h] at hn
    cases hn
  have hchain := chain_parses op hatoms hne
  have hplain : ∀ t ∈ atoms.map Prod.snd, isProductType t = false ∧ isSumType t = false := by
    intro t ht
    obtain ⟨a, ha, rfl⟩ := List.mem_map.1 ht
    exact (hatoms a ha).plain
  have hflat := combine_flat_iff hop hplain (by rw [List.length_map]; exact hn)
  rw [List.length_map] at hflat
  rw [← hflat]
  constructor
  · intro h
    exact hchain.unique h
  · intro h
    rw [← h]
    exact hchain

/-- `a + b`. -/
theorem parses_flat_two :
    Parses (join "+" ([([Token.id "a"], identifier "a" none),
        ([.id "b"], identifier "b" none)].map Prod.fst))
      (flat "+" ([([Token.id "a"], identifier "a" none),
        ([.id "b"], identifier "b" none)].map Prod.snd)) ↔ "+" = "*" ∨ 2 = 2 :=
  parses_flat_iff (.inr rfl) (fun a ha => by
    cases List.mem_cons.1 ha with
    | inl h =>
      rw [h]
      exact .name "a" (by decide)
    | inr h =>
      rw [List.mem_singleton.1 h]
      exact .name "b" (by decide)) (by decide)

/-- `a + b + c` is a sum in a sum. -/
theorem sum_nested :
    Parses [.id "a", .operator "+", .id "b", .operator "+", .id "c"]
        (.sumType [identifier "a" none, .sumType [identifier "b" none, identifier "c" none]]) ∧
      ¬ Parses [.id "a", .operator "+", .id "b", .operator "+", .id "c"]
        (.sumType [identifier "a" none, identifier "b" none, identifier "c" none]) := by
  have h : Parses [.id "a", .operator "+", .id "b", .operator "+", .id "c"]
      (.sumType [identifier "a" none, .sumType [identifier "b" none, identifier "c" none]]) :=
    ⟨11, rfl⟩
  refine ⟨h, fun h' => ?_⟩
  cases h.unique h'

end PyLinda.TypeParser
