import PyLinda.Types.WrapProgram

/-!
# Wrapped functions return nothing

Behind the value of a `let`, a bracket is the beginning of its body: `val` is the function, and
what is called is `arg`, a tuple.
-/

namespace PyLinda.Types.Wrap

open Lib Lib.ShiftReduce
open Grammar (Token idOrNil tupleAction tuple2Action)
open Evaluate (Platform evaluate)
open ExprParser (move machine State ParsesBody shift_star expr_star kind_star dollar pass)
open TypeParser (stringOf valueOf)

/-! ## Reading the text -/

theorem name_star {q q' : State} (v : SyntaxTree) (below : List (State × SyntaxTree)) (s : String)
    (f : Token) (rest : List Token) (h : move q (.id s) = .shift .id) (hq : q.gotoExpr = some q') :
    machine.Star ⟨(q, v) :: below, .id s :: f :: rest⟩
      ⟨(q', idOrNil s) :: (q, v) :: below, f :: rest⟩ :=
  (shift_star v below _ h).trans
    (@kind_star .id .value q q' (.identifier s none) v [] below f rest
      (fun ts => idOrNil (stringOf (dollar ts 1))) rfl rfl hq)

theorem blank_star (v : SyntaxTree) (below : List (State × SyntaxTree)) (f : Token)
    (rest : List Token) :
    machine.Star ⟨(.comma, v) :: below, f :: rest⟩
      ⟨(.blank, .blank) :: (.comma, v) :: below, f :: rest⟩ :=
  .single rfl

/-- The value of `Nil, …, Nil` with so many commas. -/
def chainValue : Nat → SyntaxTree
  | 0 => .nil
  | k + 1 => tupleAction .nil (tuple2Action .blank (chainValue k))

/-- `Nil, …, Nil` with so many commas. -/
def chainText (k : Nat) : Text := List.intercalate [.comma] (List.replicate (k + 1) [.id "Nil"])

theorem chainText_succ (k : Nat) : chainText (k + 1) = .id "Nil" :: .comma :: chainText k := by
  unfold chainText
  rw [List.replicate_succ, List.replicate_succ, List.intercalate_cons_cons]
  rfl

/-- The parts are read from right to left, and all but the first are lost. -/
theorem chainText_star {q q' : State} (hq : q = .openB ∧ q' = .inner ∨ q = .blank ∧ q' = .second)
    (v : SyntaxTree) (below : List (State × SyntaxTree)) (k : Nat) (rest : List Token) :
    machine.Star ⟨(q, v) :: below, chainText k ++ .closeB :: rest⟩
      ⟨(q', chainValue k) :: (q, v) :: below, .closeB :: rest⟩ := by
  have hid : move q (.id "Nil") = .shift .id := by
    obtain ⟨rfl, _⟩ | ⟨rfl, _⟩ := hq <;> rfl
  have hgoto : q.gotoExpr = some q' := by
    obtain ⟨rfl, rfl⟩ | ⟨rfl, rfl⟩ := hq <;> rfl
  have hcomma : move q' .comma = .shift .comma := by
    obtain ⟨_, rfl⟩ | ⟨_, rfl⟩ := hq <;> rfl
  induction k generalizing q q' v below with
  | zero => exact name_star v below "Nil" .closeB rest hid hgoto
  | succ k ih =>
    rw [chainText_succ]
    have hfirst := name_star v below "Nil" .comma (chainText k ++ .closeB :: rest) hid hgoto
    have hshift := shift_star .nil ((q, v) :: below) (chainText k ++ .closeB :: rest) hcomma
    have hblank : machine.Star
        ⟨(.comma, .null) :: (q', .nil) :: (q, v) :: below, chainText k ++ .closeB :: rest⟩
        ⟨(.blank, .blank) :: (.comma, .null) :: (q', .nil) :: (q, v) :: below,
          chainText k ++ .closeB :: rest⟩ := by
      cases k <;> exact blank_star _ _ _ _
    have hrest := @ih .blank .second (.inr ⟨rfl, rfl⟩) .blank
      ((.comma, .null) :: (q', .nil) :: (q, v) :: below) rfl rfl rfl
    have htuple2 := @Machine.Star.reduce State Token SyntaxTree machine .second .comma .tuple2
      (chainValue k) .null [(.blank, .blank)] ((q', .nil) :: (q, v) :: below) .closeB rest
      (fun ts => tuple2Action (dollar ts 1) (dollar ts 2)) State.gotoTuple2 rfl rfl
    have htuple := @kind_star .tuple2 .tuple q q' (tuple2Action .blank (chainValue k)) v
      [(.comma, .null), (q', .nil)] below .closeB rest
      (fun ts => tupleAction (dollar ts 1) (dollar ts 3)) rfl rfl hgoto
    exact hfirst.trans (hshift.trans (hblank.trans (hrest.trans (htuple2.trans htuple))))

/-- The tree of the text for a product of so many parts. -/
def nilsTree : Nat → SyntaxTree
  | 0 => .tuple []
  | k + 1 => chainValue k

theorem nils_star {q q' : State} (hq : move q .openB = .shift .openB)
    (hgoto : q.gotoExpr = some q') (v : SyntaxTree) (below : List (State × SyntaxTree)) (n : Nat)
    (f : Token) (rest : List Token) :
    machine.Star ⟨(q, v) :: below, nils n ++ f :: rest⟩
      ⟨(q', nilsTree n) :: (q, v) :: below, f :: rest⟩ := by
  cases n with
  | zero =>
    have hopen := shift_star v below (.closeB :: f :: rest) hq
    have hclose := @shift_star .openB .unit .null ((q, v) :: below) .closeB (f :: rest) rfl
    have hexpr := @expr_star .unit q q' .null v [(.openB, .null)] below f rest
      (fun _ => .tuple []) rfl hgoto
    exact hopen.trans (hclose.trans hexpr)
  | succ k =>
    have htext : nils (k + 1) ++ f :: rest = .openB :: (chainText k ++ .closeB :: f :: rest) := by
      show .openB :: ((chainText k ++ [.closeB]) ++ f :: rest) = _
      rw [List.append_assoc]
      rfl
    rw [htext]
    have hopen := shift_star v below (chainText k ++ .closeB :: f :: rest) hq
    have hchain := chainText_star (.inl ⟨rfl, rfl⟩) .null ((q, v) :: below) k (f :: rest)
    have hclose := @shift_star .inner .bracket (chainValue k) ((.openB, .null) :: (q, v) :: below)
      .closeB (f :: rest) rfl
    have hexpr := @expr_star .bracket q q' .null v [(.inner, chainValue k), (.openB, .null)] below f
      rest (pass 2) rfl hgoto
    exact hopen.trans (hchain.trans (hclose.trans hexpr))

/-- `let s=`. -/
theorem let_star {q : State} (hq : move q .kwLet = .shift .kwLet) (v : SyntaxTree)
    (below : List (State × SyntaxTree)) (s : String) (rest : List Token) :
    machine.Star ⟨(q, v) :: below, .kwLet :: .id s :: .eq :: rest⟩
      ⟨(.letEq, .null) :: (.letId, .identifier s none) :: (.kwLet, .null) :: (q, v) :: below,
        rest⟩ :=
  (shift_star v below _ hq).trans
    ((@shift_star .kwLet .letId .null ((q, v) :: below) (.id s) (.eq :: rest) rfl).trans
      (@shift_star .letId .letEq (.identifier s none) ((.kwLet, .null) :: (q, v) :: below) .eq rest
        rfl))

/-- What is read. -/
def bodyTree (n : Nat) (funcName : String) (m : Nat) : SyntaxTree :=
  .letExpr (.identifier "arg" none) (nilsTree n)
    (.letExpr (.identifier "val" none) (idOrNil funcName)
      (.functionCall (.identifier "arg" none) (ExprParser.argumentAction [nilsTree m])))

/-- In the inner `let`: a bracket behind its value is the beginning of its body, and the bracket
behind that one a call. -/
theorem call_star (v : SyntaxTree) (below : List (State × SyntaxTree)) (m : Nat)
    (rest : List Token) :
    machine.Star
      ⟨(.letValue, v) :: below,
        .openB :: .id "arg" :: .closeB :: .openB :: (nils m ++ .closeB :: .semicolon :: rest)⟩
      ⟨(.letBody, .functionCall (.identifier "arg" none)
          (ExprParser.argumentAction [nilsTree m])) ::
        (.letValue, v) :: below, .semicolon :: rest⟩ := by
  have hopen := @shift_star .letValue .letOpenB v below .openB
    (.id "arg" :: .closeB :: .openB :: (nils m ++ .closeB :: .semicolon :: rest)) rfl
  have harg := @name_star .letOpenB .letInner .null ((.letValue, v) :: below) "arg" .closeB
    (.openB :: (nils m ++ .closeB :: .semicolon :: rest)) rfl rfl
  have hclose := @shift_star .letInner .bracket (.identifier "arg" none)
    ((.letOpenB, .null) :: (.letValue, v) :: below) .closeB
    (.openB :: (nils m ++ .closeB :: .semicolon :: rest)) rfl
  have hexpr := @expr_star .bracket .letValue .letBody .null v
    [(.letInner, .identifier "arg" none), (.letOpenB, .null)] below .openB
    (nils m ++ .closeB :: .semicolon :: rest) (pass 2) rfl rfl
  have hcall := @shift_star .letBody .call (.identifier "arg" none) ((.letValue, v) :: below)
    .openB (nils m ++ .closeB :: .semicolon :: rest) rfl
  have hval := @nils_star .call .argument rfl rfl .null
    ((.letBody, .identifier "arg" none) :: (.letValue, v) :: below) m .closeB (.semicolon :: rest)
  have hlist := @Machine.Star.reduce State Token SyntaxTree machine .argument .call .callArguments
    (nilsTree m) .null [] ((.letBody, .identifier "arg" none) :: (.letValue, v) :: below) .closeB
    (.semicolon :: rest) ExprParser.argumentAction State.gotoArguments rfl rfl
  have hend := @shift_star .callArguments .called (ExprParser.argumentAction [nilsTree m])
    ((.call, .null) :: (.letBody, .identifier "arg" none) :: (.letValue, v) :: below) .closeB
    (.semicolon :: rest) rfl
  have hcalled := @kind_star .called .functionCall .letValue .letBody .null v
    [(.callArguments, ExprParser.argumentAction [nilsTree m]), (.call, .null),
      (.letBody, .identifier "arg" none)] below .semicolon rest
    (fun ts => .functionCall (dollar ts 1) (dollar ts 3)) rfl rfl rfl
  exact hopen.trans (harg.trans (hclose.trans (hexpr.trans (hcall.trans (hval.trans
    (hlist.trans (hend.trans hcalled)))))))

/-- The end of a `let`. -/
theorem endLet_star {q q' : State} (hq : q.gotoExpr = some q') (v value code : SyntaxTree)
    (below : List (State × SyntaxTree)) (s : String) (rest : List Token) :
    machine.Star
      ⟨(.letBody, code) :: (.letValue, value) :: (.letEq, .null) ::
        (.letId, .identifier s none) :: (.kwLet, .null) :: (q, v) :: below, .semicolon :: rest⟩
      ⟨(q', .letExpr (.identifier s none) value code) :: (q, v) :: below, .semicolon :: rest⟩ :=
  @kind_star .letBody .letExpr q q' code v
    [(.letValue, value), (.letEq, .null), (.letId, .identifier s none), (.kwLet, .null)] below
    .semicolon rest (fun ts => .letExpr (dollar ts 2) (dollar ts 4) (dollar ts 5)) rfl rfl hq

theorem body_parses (n : Nat) (funcName : String) (m : Nat) :
    ParsesBody (body (nils n) funcName (nils m)) (bodyTree n funcName m) := by
  let tail : List Token := nils m ++ .closeB :: .semicolon :: []
  let call : List Token := .openB :: .id "arg" :: .closeB :: .openB :: tail
  let outer : List (State × SyntaxTree) := [(.letEq, .null), (.letId, .identifier "arg" none),
    (.kwLet, .null), (.body, .null)]
  have htext : body (nils n) funcName (nils m) ++ [.semicolon] =
      .kwLet :: .id "arg" :: .eq ::
        (nils n ++ .kwLet :: .id "val" :: .eq :: .id funcName :: call) := by
    unfold body
    simp only [List.append_assoc, List.cons_append, List.nil_append]
    rfl
  unfold ParsesBody
  rw [htext]
  have harg := @let_star .body rfl .null [] "arg"
    (nils n ++ .kwLet :: .id "val" :: .eq :: .id funcName :: call)
  have hnils := @nils_star .letEq .letValue rfl rfl .null outer.tail n .kwLet
    (.id "val" :: .eq :: .id funcName :: call)
  have hval := @let_star .letValue rfl (nilsTree n) outer "val" (.id funcName :: call)
  have hname := @name_star .letEq .letValue .null
    ((.letId, .identifier "val" none) :: (.kwLet, .null) :: (.letValue, nilsTree n) :: outer)
    funcName .openB (.id "arg" :: .closeB :: .openB :: tail) rfl rfl
  have hcall := call_star (idOrNil funcName)
    ((.letEq, .null) :: (.letId, .identifier "val" none) :: (.kwLet, .null) ::
      (.letValue, nilsTree n) :: outer) m []
  have hinner := @endLet_star .letValue .letBody rfl (nilsTree n) (idOrNil funcName)
    (.functionCall (.identifier "arg" none) (ExprParser.argumentAction [nilsTree m])) outer "val" []
  have houter := @endLet_star .body .bodyExpr rfl .null (nilsTree n)
    (.letExpr (.identifier "val" none) (idOrNil funcName)
      (.functionCall (.identifier "arg" none) (ExprParser.argumentAction [nilsTree m]))) [] "arg" []
  exact Machine.run_star (harg.trans (hnils.trans (hval.trans (hname.trans (hcall.trans
    (hinner.trans houter)))))) (Machine.accepts_of_accept rfl)

theorem ParsesBody.unique {text : List Token} {t u : SyntaxTree} (ht : ParsesBody text t)
    (hu : ParsesBody text u) : t = u :=
  Machine.Accepts.unique ht hu

/-! ## Running what has been read -/

section
variable {p : Platform}

/-- `arg` is a tuple or `Nil`. -/
theorem evaluate_nilsTree {n depth layer : Nat} {s s' : Evaluate.State} {v : Evaluate.Value}
    (h : evaluate p depth (nilsTree n) layer s = (.ok v, s')) :
    v = .nil ∨ ∃ vs, v = .tuple vs := by
  cases depth with
  | zero => cases h
  | succ depth =>
    have htuple {ts : List SyntaxTree}
        (h : evaluate p (depth + 1) (.tuple ts) layer s = (.ok v, s')) :
        v = .nil ∨ ∃ vs, v = .tuple vs := by
      obtain ⟨vs, t, _, h⟩ := Eff.ok_of_andThen h
      cases h
      exact .inr ⟨vs, rfl⟩
    cases n with
    | zero => exact htuple h
    | succ n =>
      cases n with
      | zero =>
        cases h
        exact .inl rfl
      | succ n => exact htuple h

/-- A call of what is no function gives `NULL`. -/
theorem evaluate_call_null {depth layer : Nat} {s s' : Evaluate.State} {name : String}
    {arguments : SyntaxTree} {r : Evaluate.Value}
    (hv : ∀ d v, Evaluate.lookup p s.layers d (some layer) name = .ok v →
      v = .nil ∨ ∃ vs, v = .tuple vs)
    (h : evaluate p depth (.functionCall (.identifier name none) arguments) layer s = (.ok r, s')) :
    r = .null := by
  cases depth with
  | zero => cases h
  | succ depth =>
    obtain ⟨v, t, hname, h⟩ := Eff.ok_of_andThen h
    cases depth with
    | zero => cases hname
    | succ depth =>
      have hlookup : Evaluate.lookup p s.layers depth (some layer) name = .ok v :=
        congrArg Prod.fst hname
      obtain rfl | ⟨vs, rfl⟩ := hv depth v hlookup
      · cases h
        rfl
      · cases h
        rfl

/-- Behind the layer of the inner `let` is that of the outer one. -/
theorem lookup_outer (hc : Conforming p.strcmp) {s : Evaluate.State} {layer outer inner : Nat}
    {w v : Evaluate.Value} {map : NameMap Evaluate.Value}
    (hinner : s.layers inner = ⟨some outer, map⟩)
    (houter : s.layers outer = ⟨some layer, .node (some "arg") (some v) .null .null⟩)
    (hmap : Evaluate.nameIn p NameMap.init "val" w = .ok map) {depth : Nat} {u : Evaluate.Value}
    (h : Evaluate.lookup p s.layers depth (some inner) "arg" = .ok u) : u = v := by
  have hnone : NameMap.getName2 p.strcmp map "arg" = none := by
    cases hw : w.isNull with
    | true =>
      have hinit : Evaluate.nameIn p NameMap.init "val" w = .ok NameMap.init := by
        unfold Evaluate.nameIn
        rw [if_neg (by decide), hw]
        rfl
      rw [hinit] at hmap
      cases hmap
      rfl
    | false =>
      rw [Evaluate.nameIn_ok (by decide) hw (NameMap.addName_init (by decide) w)] at hmap
      cases hmap
      rw [Evaluate.getName2_leaf hc]
      exact if_neg (by decide)
  cases depth with
  | zero => cases h
  | succ depth =>
    rw [Evaluate.lookup_layer hinner, hnone] at h
    cases depth with
    | zero => cases h
    | succ depth =>
      have h' : Evaluate.lookup p s.layers (depth + 1) (some outer) "arg" = .ok u := h
      rw [Evaluate.lookup_layer houter, Evaluate.getName2_leaf hc, if_pos rfl] at h'
      cases h'
      rfl

/-- The function is only looked up. -/
theorem evaluate_name {depth layer : Nat} {s s' : Evaluate.State} {name : String}
    {v : Evaluate.Value} (h : evaluate p depth (idOrNil name) layer s = (.ok v, s')) : s' = s := by
  cases depth with
  | zero => cases h
  | succ depth =>
    unfold idOrNil at h
    by_cases hn : name = "Nil"
    · rw [if_pos hn] at h
      cases h
      rfl
    · rw [if_neg hn] at h
      exact (congrArg Prod.snd h).symm

theorem nameIn_init {name : String} (hname : name ≠ "") (v : Evaluate.Value) :
    ∃ map, Evaluate.nameIn p NameMap.init name v = .ok map := by
  cases hv : v.isNull with
  | false => exact ⟨_, Evaluate.nameIn_ok hname hv (NameMap.addName_init hname v)⟩
  | true =>
    refine ⟨NameMap.init, ?_⟩
    unfold Evaluate.nameIn
    rw [if_neg hname, hv]
    rfl

/-- Whatever the program returns, it is `NULL`. -/
theorem bodyTree_null (hc : Conforming p.strcmp) {n m depth layer : Nat} {funcName : String}
    {s s' : Evaluate.State} {r : Evaluate.Value}
    (h : evaluate p depth (bodyTree n funcName m) layer s = (.ok r, s')) : r = .null := by
  cases depth with
  | zero => cases h
  | succ depth =>
    obtain ⟨v, s1, hv, _⟩ := Eff.ok_of_andThen h
    have hv' := evaluate_nilsTree hv
    have hnull : v.isNull = false := by
      obtain rfl | ⟨vs, rfl⟩ := hv' <;> rfl
    have harg : Evaluate.nameIn p NameMap.init "arg" v =
        .ok (.node (some "arg") (some v) .null .null) :=
      Evaluate.nameIn_ok (by decide) hnull (NameMap.addName_init (by decide) v)
    obtain ⟨s2, hrun, hcount, hmap, _⟩ := Evaluate.let_run harg hv
    have h2 := hrun.symm.trans h
    cases depth with
    | zero => cases h2
    | succ depth =>
      obtain ⟨w, s3, hw, _⟩ := Eff.ok_of_andThen h2
      obtain rfl := evaluate_name hw
      obtain ⟨map, hval⟩ := @nameIn_init p "val" (by decide) w
      obtain ⟨s4, hrun4, _, hinner, hother⟩ := Evaluate.let_run hval hw
      have h4 := hrun4.symm.trans h2
      have houter : s4.layers s1.count =
          ⟨some layer, .node (some "arg") (some v) .null .null⟩ := by
        rw [hother s1.count (by omega)]
        exact hmap
      refine evaluate_call_null (fun d u hu => ?_) h4
      rw [lookup_outer hc hinner houter hval hu]
      exact hv'

/-- A call of the wrapped function returns `NULL` or nothing at all. -/
theorem calls_null (hc : Conforming p.strcmp) {s : Evaluate.State} {layer n m : Nat}
    {name funcName : String} {x r : Evaluate.Value}
    (h : Calls p s ⟨name, .parameterList "x" .null, bodyTree n funcName m, layer⟩ x r) :
    r = .null := by
  obtain ⟨depth, h⟩ := h
  obtain ⟨s', hrun⟩ : ∃ s', Evaluate.enter p (evaluate p depth) (.parameterList "x" .null)
      (bodyTree n funcName m) layer [x] s = (.ok r, s') := ⟨_, Prod.ext h rfl⟩
  obtain ⟨q, s1, _, hrun⟩ := Eff.ok_of_andThen hrun
  obtain ⟨bound, s2, _, hrun⟩ := Eff.ok_of_andThen hrun
  cases bound with
  | false =>
    cases hrun
    rfl
  | true => exact bodyTree_null hc hrun

end

/-! ## Every pair of types -/

/-- A value of a built-in type. -/
def sampleOf (id : String) : Evaluate.Value :=
  if id ∈ ["int8", "int16", "int32", "int64"] then .integer 0
  else if id ∈ ["uint8", "uint16", "uint32", "uint64"] then .uinteger 0
  else if id = "bool" then .boolean 0
  else if id = "ieeesingle" then .float 0
  else if id = "ieeedouble" then .double 0
  else if id = "string" then .string "" 1
  else .type .null

theorem sampleOf_builtin : ∀ id ∈ builtin, ofBuiltin id (sampleOf id) = true := by decide

mutual

/-- A plain type has values. -/
theorem exists_hasType : ∀ {spec : TypeSpec}, Plain spec → ∃ v, HasType spec v
  | .id id _, h => ⟨sampleOf id, sampleOf_builtin id h⟩
  | .product branches, h => by
    have hb : AllPlain branches := h
    obtain ⟨vs, hvs⟩ := exists_haveTypes hb
    exact ⟨.tuple vs, hvs⟩
  | .nil, h | .sum _, h | .pointer _ _, h | .function _ _, h => h.elim

theorem exists_haveTypes : ∀ {specs : List TypeSpec}, AllPlain specs → ∃ vs, HaveTypes specs vs
  | [], _ => ⟨[], trivial⟩
  | spec :: specs, h => by
    obtain ⟨v, hv⟩ := exists_hasType h.1
    obtain ⟨vs, hvs⟩ := exists_haveTypes h.2
    exact ⟨v :: vs, hv, hvs⟩

end

theorem not_hasType_null (spec : TypeSpec) : ¬ HasType spec .null := by
  intro h
  cases spec with
  | id => cases h
  | nil | product | sum | pointer | function => exact h

/-- No two function types have a converter whose program does what the function does. -/
theorem not_wraps {p : Platform} (hc : Conforming p.strcmp) (s : Evaluate.State) (layer : Nat)
    {c : TypeCache} {depth : Nat} {t1 t2 : LindaType} {a1 b1 a2 b2 : TypeSpec}
    (ht1 : t1.typeSpec = .function a1 b1) (ht2 : t2.typeSpec = .function a2 b2) (ha1 : Plain a1)
    (hb1 : Plain b1) (ha2 : Plain a2) (hb2 : Plain b2) {conv : Converter} {checked : Checked}
    (h : compareTypes c depth t1 t2 .init = .ok (some conv, checked)) (f : Func) :
    ¬ Wraps p s layer checked.codes conv a1 b1 a2 b2 f := by
  rintro ⟨depth', program, tree, hprogram, hparse, hall⟩
  obtain ⟨arg, result, rfl, ⟨argProgram, harg, hargw⟩, resultProgram, hresult, hresultw⟩ :=
    compareTypes_function ht1 ht2 ha1 hb1 ha2 hb2 h
  obtain ⟨argText, _, hprogram⟩ := ok_of_bind hprogram
  obtain ⟨resultText, _, hprogram⟩ := ok_of_bind hprogram
  obtain ⟨xText, hx, hprogram⟩ := ok_of_bind hprogram
  obtain ⟨valText, hval, hprogram⟩ := ok_of_bind hprogram
  cases hprogram
  obtain ⟨n, rfl⟩ := hargw.wrap harg hx
  obtain ⟨m, rfl⟩ := hresultw.wrap hresult hval
  obtain rfl := ParsesBody.unique hparse (body_parses n f.funcName m)
  obtain ⟨x, hx⟩ := exists_hasType ha2
  obtain ⟨x', y, r, _, _, hr, hcalls⟩ := hall x hx
  obtain rfl := calls_null hc hcalls
  exact not_hasType_null b2 hr.target

/-- A function from `()` to `()`. -/
theorem unit_not_wrapped : ¬ Wraps Evaluate.plain ⟨fun _ => ⟨none, NameMap.init⟩, 1, []⟩ 0
    [[], [.explode ⟨"f", .product [], none⟩, .construct ⟨"f", .product [], none⟩, .setTypeId none]]
    (.wrap ⟨"f", .product [], none⟩ 1 ⟨"f", .product [], none⟩ 1) (.product []) (.product [])
    (.product []) (.product []) ⟨"f", .parameterList "x" .null, .identifier "x" none, 0⟩ :=
  @not_wraps Evaluate.plain NameMap.signs_conforming _ 0 (fun _ => none) 3
    ⟨"f", .function (.product []) (.product []), none⟩
    ⟨"f", .function (.product []) (.product []), none⟩ _ _ _ _ rfl rfl trivial trivial trivial
    trivial _ _ rfl _

/-- The function `five` from `int8` to `int8`. -/
def five : Func := ⟨"five", .parameterList "x" .null, .integer 5, 0⟩

/-- A layer in which it is defined. -/
def fiveDefined : Evaluate.State :=
  ⟨fun _ => ⟨none, .node (some "five") (some (.function five.parameterList five.code 0)) .null
    .null⟩, 1, []⟩

theorem five_inScope : InScope Evaluate.plain fiveDefined 0 five := by
  refine ⟨1, ?_⟩
  have hname : NameMap.getName2 Evaluate.plain.strcmp (fiveDefined.layers 0).map five.funcName =
      some (.function five.parameterList five.code 0) :=
    (Evaluate.getName2_leaf NameMap.signs_conforming "five" "five" _).trans (if_pos rfl)
  unfold Evaluate.lookup
  rw [hname]
  rfl

theorem five_ofType :
    OfType Evaluate.plain fiveDefined five (.id "int8" none) (.id "int8" none) := by
  intro x hx
  refine ⟨.integer ((5 : Int).bmod (2 ^ 32)), rfl, 1, ?_⟩
  cases x with
  | integer i => rfl
  | null | nil | tsref | tuple | sum | function | pointer | syntaxTree | builtInFunc => cases hx
  | boolean | uinteger | float | double | string | type => simp [HasType, ofBuiltin] at hx

/-- Not even an `int8` is converted to an `int8`. -/
theorem int8_not_wrapped : ¬ ∀ (p : Platform), Conforming p.strcmp → ∀ (s : Evaluate.State)
    (layer : Nat) (c : TypeCache) (depth : Nat) (t1 t2 : LindaType) (a1 b1 a2 b2 : TypeSpec),
    t1.typeSpec = .function a1 b1 → t2.typeSpec = .function a2 b2 → Plain a1 → Plain b1 →
    Plain a2 → Plain b2 → ∀ conv checked,
    compareTypes c depth t1 t2 .init = .ok (some conv, checked) → ∀ f, OfType p s f a1 b1 →
    InScope p s layer f → Wraps p s layer checked.codes conv a1 b1 a2 b2 f := by
  intro h
  have hint8 : Plain (.id "int8" none) := show "int8" ∈ builtin by decide
  let t : LindaType := ⟨"f", .function (.id "int8" none) (.id "int8" none), none⟩
  obtain ⟨depth, program, _, hprogram, _⟩ := h Evaluate.plain NameMap.signs_conforming fiveDefined 0
    (fun _ => none) 3 t t _ _ _ _ rfl rfl hint8 hint8 hint8 hint8 _ _ rfl five five_ofType
    five_inScope
  cases depth with
  | zero => cases hprogram
  | succ depth => cases hprogram

end PyLinda.Types.Wrap
