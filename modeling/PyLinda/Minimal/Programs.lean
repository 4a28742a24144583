import PyLinda.Minimal.Grammar
import PyLinda.Minimal.Twins

/-!
# Programs

In every state a program can get to, the layers lie in layers, and the code of each function is
an expression.
-/

namespace PyLinda

namespace SyntaxTree

/-- What is defined in the tree are functions whose bodies are expressions. -/
inductive Program : SyntaxTree → Prop
  | node (t : SyntaxTree) :
    (∀ funcName parameterList body, t = .functionDef funcName parameterList body → body.Plain) →
    (∀ k ∈ t.kids, Program k) → Program t

theorem Program.kid {t k : SyntaxTree} (h : t.Program) (hk : k ∈ t.kids) : k.Program := by
  cases h with
  | node _ _ hkids => exact hkids k hk

theorem Program.body {funcName : String} {parameterList body : SyntaxTree}
    (h : (functionDef funcName parameterList body).Program) : body.Plain := by
  cases h with
  | node _ hbody _ => exact hbody _ _ _ rfl

theorem Plain.program {t : SyntaxTree} (h : t.Plain) : t.Program := by
  induction h with
  | node t hfree _ ih => exact .node t (fun _ _ _ he => by rw [he] at hfree; cases hfree) ih

theorem plain_leaf {t : SyntaxTree} (hfree : t.defines = false) (hkids : t.kids = []) : t.Plain :=
  .node t hfree fun k hk => by rw [hkids] at hk; cases hk

theorem plain_two {t a b : SyntaxTree} (hfree : t.defines = false) (hkids : t.kids = [a, b])
    (ha : a.Plain) (hb : b.Plain) : t.Plain := by
  refine .node t hfree fun k hk => ?_
  rw [hkids] at hk
  cases List.mem_cons.1 hk with
  | inl he => exact he ▸ ha
  | inr hk => exact List.mem_singleton.1 hk ▸ hb

theorem plain_three {t a b c : SyntaxTree} (hfree : t.defines = false)
    (hkids : t.kids = [a, b, c]) (ha : a.Plain) (hb : b.Plain) (hc : c.Plain) : t.Plain := by
  refine .node t hfree fun k hk => ?_
  rw [hkids] at hk
  cases List.mem_cons.1 hk with
  | inl he => exact he ▸ ha
  | inr hk =>
    cases List.mem_cons.1 hk with
    | inl he => exact he ▸ hb
    | inr hk => exact List.mem_singleton.1 hk ▸ hc

end SyntaxTree

namespace Grammar

open SyntaxTree

theorem createArgumentList1_plain {t l : SyntaxTree} (h : t.Plain)
    (hl : createArgumentList1 t = some l) : l.Plain := by
  unfold createArgumentList1 at hl
  split at hl
  · cases hl
  · cases hl
    exact h
  · cases hl
    exact plain_two rfl rfl h (plain_leaf rfl rfl)

theorem appendArgs_plain {tail t : SyntaxTree} (htail : tail.Plain) (h : t.Plain) :
    (appendArgs tail t).Plain := by
  induction t using appendArgs.induct with
  | case1 a => exact plain_two rfl rfl (h.kid List.mem_cons_self) htail
  | case2 a next hnext ih =>
    rw [appendArgs.eq_2 tail a next hnext]
    have hrest := ih (h.kid (List.mem_cons_of_mem _ List.mem_cons_self))
    exact plain_two rfl rfl (h.kid List.mem_cons_self) hrest
  | case3 t h1 h2 =>
    rw [appendArgs.eq_3 tail t h1 h2]
    exact h

theorem createArgumentList2_plain {t u l : SyntaxTree} (ht : t.Plain) (hu : u.Plain)
    (hl : createArgumentList2 t u = some l) : l.Plain := by
  unfold createArgumentList2 at hl
  cases h1 : createArgumentList1 t with
  | none =>
    rw [h1] at hl
    cases hl
  | some l1 =>
    cases h2 : createArgumentList1 u with
    | none =>
      rw [h1, h2] at hl
      cases hl
    | some l2 =>
      rw [h1, h2] at hl
      cases hl
      exact appendArgs_plain (createArgumentList1_plain hu h2) (createArgumentList1_plain ht h1)

theorem addToTuple_plain {t u : SyntaxTree} (ht : t.Plain) (hu : u.Plain) :
    (addToTuple t u).Plain := by
  unfold addToTuple
  split
  · rename_i ts u
    refine .node _ rfl fun k hk => ?_
    cases List.mem_append.1 hk with
    | inl hk => exact ht.kid hk
    | inr hk => exact List.mem_singleton.1 hk ▸ hu
  · exact ht

theorem foldl_addToTuple_plain {us : List SyntaxTree} {t : SyntaxTree} (ht : t.Plain)
    (hus : ∀ k ∈ us, k.Plain) : (us.foldl addToTuple t).Plain := by
  induction us generalizing t with
  | nil => exact ht
  | cons k us ih =>
    exact ih (addToTuple_plain ht (hus k List.mem_cons_self))
      fun x hx => hus x (List.mem_cons_of_mem k hx)

/-- No definition is part of an expression. -/
theorem Derives.plain {x : Symbol} {a : List Token} {t : SyntaxTree} (h : Derives x a t) :
    t.Plain := by
  induction h with
  | value _ ih | functionCall _ ih | tuple _ ih | ifExpr _ ih | testExpr _ ih | letExpr _ ih
  | brackets _ ih => exact ih
  | unit => exact plain_leaf rfl rfl
  | valueId s =>
    unfold idOrNil
    split
    · exact plain_leaf rfl rfl
    · exact plain_leaf rfl rfl
  | valueInteger i => exact plain_leaf rfl rfl
  | valueString s => exact plain_leaf rfl rfl
  | index _ _ ih1 ih2 => exact plain_two rfl rfl ih1 ih2
  | operator op _ _ ih1 ih2 => exact plain_two rfl rfl ih1 ih2
  | test op _ _ ih1 ih2 => exact plain_two rfl rfl ih1 ih2
  | call _ ih => exact plain_two rfl rfl ih (plain_leaf rfl rfl)
  | callArguments _ _ ih1 ih2 => exact plain_two rfl rfl ih1 ih2
  | argument _ hl ih => exact createArgumentList1_plain ih hl
  | arguments _ _ hl ih1 ih2 => exact createArgumentList2_plain ih1 ih2 hl
  | @tupleOf a b t u _ _ ih1 ih2 =>
    have helements : ∀ k ∈ elements u, Plain k := by
      unfold elements
      split
      · exact fun k hk => ih2.kid hk
      · exact fun k hk => by cases hk
    exact foldl_addToTuple_plain (.node _ rfl fun k hk => List.mem_singleton.1 hk ▸ ih1) helements
  | second _ ih => exact .node _ rfl fun k hk => List.mem_singleton.1 hk ▸ plain_leaf rfl rfl
  | further _ _ ih1 ih2 => exact addToTuple_plain ih1 ih2
  | condition _ _ _ ih1 ih2 ih3 => exact plain_three rfl rfl ih1 ih2 ih3
  | binding s _ _ ih1 ih2 => exact plain_three rfl rfl (plain_leaf rfl rfl) ih1 ih2

end Grammar

namespace Evaluate

open Lib SyntaxTree

/-! ## What stays true in a run -/

/-- From a sound state with `n` layers or more the program leaves a sound one, and what it
returns is right for its number of layers. -/
def Stays (n : Nat) {α : Type} (Q : α → Nat → Prop) (x : Run α) : Prop :=
  ∀ s, Sound s → n ≤ s.count →
    Sound (x s).2 ∧ s.count ≤ (x s).2.count ∧ ∀ a, (x s).1 = .ok a → Q a (x s).2.count

/-- Every function in the value was defined in one of the first `n` layers. -/
def Known (v : Value) (n : Nat) : Prop := v.Within (· < n)

theorem Known.mono {v : Value} {n m : Nat} (h : Known v n) (hm : n ≤ m) : Known v m :=
  Value.Within.mono (fun _ hl => Nat.lt_of_lt_of_le hl hm) h

section
variable {p : Platform} {n : Nat} {α β : Type} {Q : α → Nat → Prop} {P : β → Nat → Prop}

theorem Stays.ret {a : α} (h : ∀ m, n ≤ m → Q a m) : Stays n Q (pure a : Run α) := by
  intro s hs hn
  refine ⟨hs, Nat.le_refl _, fun b hb => ?_⟩
  cases hb
  exact h s.count hn

theorem Sound.note {s : State} (hs : Sound s) (t : Step) : Sound (s.note t) :=
  Shared.extend hs (note_extends s t) (note_extends s t)

theorem Stays.step {t : Step} {x : Except Stop α} (h : ∀ a, x = .ok a → ∀ m, n ≤ m → Q a m) :
    Stays n Q (step t x) :=
  fun s hs hn => ⟨hs.note t, Nat.le_refl _, fun a ha => h a ha s.count hn⟩

theorem Stays.andThen {x : Run α} {f : α → Run β} (hx : Stays n Q x)
    (hf : ∀ a m, n ≤ m → Q a m → Stays m P (f a)) : Stays n P (x >>= f) := by
  intro s hs hn
  have h := hx s hs hn
  cases hr : x s with
  | mk r s' =>
    rw [hr] at h
    obtain ⟨hs', hle, hq⟩ := h
    cases r with
    | error e =>
      rw [Eff.andThen_error hr]
      exact ⟨hs', hle, fun b hb => by cases hb⟩
    | ok a =>
      rw [Eff.andThen_ok hr]
      obtain ⟨hs'', hle', hp⟩ := hf a s'.count (Nat.le_trans hn hle) (hq a rfl) s' hs'
        (Nat.le_refl _)
      exact ⟨hs'', Nat.le_trans hle hle', hp⟩

theorem Stays.raise (e : Stop) : Stays n Q (Eff.raise e : Run α) :=
  fun _ hs _ => ⟨hs, Nat.le_refl _, fun _ h => by cases h⟩

theorem Sound.push {s : State} (hs : Sound s) {parent : Nat} (hparent : parent < s.count) :
    Sound (s.push parent) := by
  have hold : ∀ l, l ≠ s.count → (s.push parent).layers l = s.layers l := fun l hl => if_neg hl
  have hnew : (s.push parent).layers s.count = ⟨some parent, NameMap.init⟩ := if_pos rfl
  refine ⟨fun l hl => hl, fun l hl => hl, fun l _ => rfl, fun l hl r hr => ?_, fun l hl => ?_⟩
  · by_cases he : l = s.count
    · rw [he, hnew] at hr
      cases hr
      exact Nat.lt_succ_of_lt hparent
    · rw [hold l he] at hr
      have hlt : l < s.count := by
        have : l < s.count + 1 := hl
        omega
      exact Nat.lt_succ_of_lt (hs.parent l hlt r hr)
  · by_cases he : l = s.count
    · rw [he, hnew]
      exact .init
    · rw [hold l he]
      have hlt : l < s.count := by
        have : l < s.count + 1 := hl
        omega
      exact (hs.values l hlt).mono fun v hv => Known.mono hv (Nat.le_succ _)

theorem Stays.create {parent : Nat} (hparent : parent < n) {f : Nat → Run α}
    (hf : ∀ q m, n ≤ q → q < m → Stays m Q (f q)) : Stays n Q (createLayer2 parent >>= f) := by
  intro s hs hn
  rw [createLayer2_run]
  obtain ⟨hs', hle, hq⟩ := hf s.count (s.count + 1) hn (Nat.lt_succ_self _) (s.push parent)
    (hs.push (Nat.lt_of_lt_of_le hparent hn)) (Nat.le_refl _)
  exact ⟨hs', Nat.le_of_succ_le hle, hq⟩

theorem Sound.setMap {s : State} (hs : Sound s) {layer : Nat} {map : NameMap Value}
    (hmap : map.All (Value.Within (· < s.count))) : Sound (s.setMap layer map) := by
  have hparent (l : Nat) : ((s.setMap layer map).layers l).parent = (s.layers l).parent := by
    by_cases he : l = layer
    · subst he
      have hlayer : (s.setMap l map).layers l = { s.layers l with map := map } := if_pos rfl
      rw [hlayer]
    · rw [s.setMap_other map he]
  refine ⟨fun l hl => hl, fun l hl => hl, fun l _ => rfl, fun l hl r hr => ?_, fun l hl => ?_⟩
  · rw [hparent] at hr
    exact hs.parent l hl r hr
  · by_cases he : l = layer
    · subst he
      have hlayer : ((s.setMap l map).layers l).map = map := congrArg Layer.map (if_pos rfl)
      rw [hlayer]
      exact hmap
    · rw [s.setMap_other map he]
      exact hs.values l hl

theorem addName_stays {layer : Nat} (hlayer : layer < n) (name : String) {v : Value}
    (hv : Known v n) : Stays n (fun _ _ => True) (addName p layer name v) := by
  intro s hs hn
  rw [addName_run]
  cases hm : nameIn p (s.layers layer).map name v with
  | error e => exact ⟨hs.note _, Nat.le_refl _, fun a ha => by cases ha⟩
  | ok map =>
    have hold := hs.values layer (Nat.lt_of_lt_of_le hlayer hn)
    have hmap : map.All (Value.Within (· < s.count)) := nameIn_all hold (hv.mono hn) hm
    exact ⟨Sound.setMap (hs.note _) hmap, Nat.le_refl _, fun a _ => trivial⟩

theorem getName_stays {layer : Nat} (hlayer : layer < n) (depth : Nat) (name : String) :
    Stays n Known (getName p depth layer name) := by
  intro s hs hn
  refine ⟨hs, Nat.le_refl _, fun v hv => ?_⟩
  exact (lookup_twins hs depth (.shared layer (Nat.lt_of_lt_of_le hlayer hn)) name).2 v hv

theorem known_leaf {v : Value} (hparts : v.parts = [])
    (hf : ∀ parameterList code layer, v ≠ .function parameterList code layer) (m : Nat)
    (_ : n ≤ m) : Known v m := .leaf hparts hf

theorem known_null (m : Nat) (_ : n ≤ m) : Known .null m := Within.null

theorem known_function {parameterList code : SyntaxTree} {layer : Nat} (hcode : code.Plain)
    (hlayer : layer < n) : Known (.function parameterList code layer) n := by
  refine .node _ (fun _ _ _ he => ?_) fun u hu => by cases hu
  cases he
  exact ⟨hlayer, hcode⟩

theorem addTree_stays {layer : Nat} (hlayer : layer < n) (depth : Nat) {tree : SyntaxTree}
    (h : tree.Program) : Stays n (fun _ _ => True) (addTree p depth layer tree) := by
  unfold addTree
  split
  · exact addName_stays hlayer _ (known_leaf rfl (fun _ _ _ h => by cases h) n (Nat.le_refl n))
  · refine .andThen (getName_stays hlayer depth _) fun typespec m hm _ => ?_
    refine .andThen (.step (Q := fun _ _ => True) fun _ _ _ _ => trivial) fun _ m' hm' _ => ?_
    refine .andThen (.step (Q := fun _ _ => True) fun _ _ _ _ => trivial) fun _ k hk _ => ?_
    have hlt : layer < k := by omega
    exact addName_stays hlt _ (known_function h.body hlt)
  · exact .ret fun _ _ => trivial

theorem arguments_stays {args : SyntaxTree} (h : args.Program) :
    Stays n (fun r _ => r.1.Program ∧ r.2.Program)
      (step (.argument args) (argumentOf args)) :=
  .step fun _ hr _ _ => ⟨h.kid (argumentOf_kids hr).1, h.kid (argumentOf_kids hr).2⟩

theorem builtIn_stays (hp : p.Honest) {func : Nat} {args : List Value} {failed : Prop}
    [Decidable failed] (h : ∀ v ∈ args, Known v n) :
    Stays n Known
      (step (.builtIn args) (if failed then .error .null else .ok (p.builtIn func args))) := by
  refine .step fun v hv m hm => ?_
  split at hv
  · cases hv
  · cases hv
    exact hp _ func args fun v hv => (h v hv).mono hm

section
variable {eval : SyntaxTree → Nat → Run Value}
  (heval : ∀ m t layer, t.Program → layer < m → Stays m Known (eval t layer))
include heval

theorem evaluateAll_stays {layer : Nat} (hlayer : layer < n) {ts : List SyntaxTree}
    (h : ∀ t ∈ ts, t.Program) : Stays n (fun _ _ => True) (evaluateAll eval layer ts) := by
  induction ts generalizing n with
  | nil => exact .ret fun _ _ => trivial
  | cons t ts ih =>
    refine .andThen (heval n t layer (h t List.mem_cons_self) hlayer) fun _ m hm _ => ?_
    exact ih (Nat.lt_of_lt_of_le hlayer hm) fun u hu => h u (List.mem_cons_of_mem t hu)

theorem evaluateElements_stays {layer : Nat} (hlayer : layer < n) {ts : List SyntaxTree}
    (h : ∀ t ∈ ts, t.Program) :
    Stays n (fun vs m => ∀ v ∈ vs, Known v m) (evaluateElements eval layer ts) := by
  induction ts generalizing n with
  | nil => exact .ret fun _ _ _ hv => by cases hv
  | cons t ts ih =>
    refine .andThen (heval n t layer (h t List.mem_cons_self) hlayer) fun v m hm hv => ?_
    refine .andThen (ih (Nat.lt_of_lt_of_le hlayer hm)
      fun u hu => h u (List.mem_cons_of_mem t hu)) fun vs m' hm' hvs => ?_
    refine .ret fun k hk u hu => ?_
    cases List.mem_cons.1 hu with
    | inl he => exact he ▸ hv.mono (Nat.le_trans hm' hk)
    | inr hu => exact (hvs u hu).mono hk

theorem bindArguments_stays {layer newLayer : Nat} (hlayer : layer < n) (hnew : newLayer < n)
    {args param : SyntaxTree} (h : args.Program) :
    Stays n (fun _ _ => True) (bindArguments p eval layer newLayer args param) := by
  induction args, param using bindArguments.induct generalizing n with
  | case1 => exact .ret fun _ _ => trivial
  | case2 => exact .ret fun _ _ => trivial
  | case3 argument nextArg param ih =>
    unfold bindArguments
    refine .andThen (heval n argument layer (h.kid List.mem_cons_self) hlayer) fun v m hm hv => ?_
    by_cases hparam : param.isNull = true
    · rw [if_pos hparam]
      exact .ret fun _ _ => trivial
    rw [if_neg hparam]
    by_cases hnull : v.isNull = true
    · rw [if_pos hnull]
      exact .ret fun _ _ => trivial
    rw [if_neg hnull]
    refine .andThen (.step (Q := fun _ _ => True) fun _ _ _ _ => trivial) fun r m' hm' _ => ?_
    refine .andThen (addName_stays (by omega) r.1 (hv.mono hm')) fun _ k hk _ => ?_
    exact ih r.2 (by omega) (by omega) (h.kid (List.mem_cons_of_mem _ List.mem_cons_self))
  | case4 arg param hnull hblank hlist =>
    rw [bindArguments.eq_4 p eval layer newLayer arg param hnull hblank hlist]
    refine .andThen (.step (Q := fun _ _ => True) fun _ _ _ _ => trivial) fun _ _ _ _ => ?_
    exact .ret fun _ _ => trivial

theorem callBuiltIn_stays (hp : p.Honest) {layer : Nat} (hlayer : layer < n)
    {arguments : SyntaxTree} (h : arguments.Program) (argCount func : Nat) :
    Stays n Known (callBuiltIn p eval layer argCount func arguments) := by
  unfold callBuiltIn
  by_cases h0 : argCount = 0
  · rw [if_pos h0]
    exact .ret fun m _ => hp _ func [] fun v hv => by cases hv
  rw [if_neg h0]
  by_cases h1 : argCount = 1
  · rw [if_pos h1]
    refine .andThen (arguments_stays h) fun r m hm hr => ?_
    refine .andThen (heval m r.1 layer hr.1 (by omega)) fun v m' hm' hv => ?_
    exact builtIn_stays hp fun u hu => List.mem_singleton.1 hu ▸ hv
  rw [if_neg h1]
  by_cases h2 : argCount = 2
  · rw [if_pos h2]
    refine .andThen (arguments_stays h) fun r m hm hr => ?_
    refine .andThen (heval m r.1 layer hr.1 (by omega)) fun v m' hm' hv => ?_
    refine .andThen (arguments_stays hr.2) fun r' k hk hr' => ?_
    refine .andThen (heval k r'.1 layer hr'.1 (by omega)) fun w k' hk' hw => ?_
    refine builtIn_stays hp fun u hu => ?_
    cases List.mem_cons.1 hu with
    | inl he => exact he ▸ hv.mono (Nat.le_trans hk hk')
    | inr hu => exact List.mem_singleton.1 hu ▸ hw
  · rw [if_neg h2]
    exact .ret known_null

theorem callFunction_stays (hp : p.Honest) {layer : Nat} (hlayer : layer < n)
    {arguments : SyntaxTree} (h : arguments.Program) {function : Value} (hf : Known function n) :
    Stays n Known (callFunction p eval layer function arguments) := by
  unfold callFunction
  split
  · exact .ret known_null
  · exact callBuiltIn_stays heval hp hlayer h _ _
  · rename_i parameterList code funcLayer
    obtain ⟨hfunc, hcode⟩ := hf.closure
    refine .create hfunc fun q m hq hm => ?_
    by_cases hnull : parameterList.isNull = true
    · rw [if_pos hnull]
      exact .ret known_null
    rw [if_neg hnull]
    refine .andThen (bindArguments_stays heval (by omega) hm h) fun bound k hk _ => ?_
    by_cases hbound : bound = true
    · rw [if_pos hbound]
      exact heval k code q hcode.program (by omega)
    · rw [if_neg hbound]
      exact .ret known_null
  · exact .ret known_null

end

/-- A program leaves a sound state, whether it comes to an end or not. -/
theorem evaluate_stays (hp : p.Honest) (depth : Nat) {t : SyntaxTree} (h : t.Program)
    {layer : Nat} (hlayer : layer < n) : Stays n Known (evaluate p depth t layer) := by
  induction depth generalizing n t layer with
  | zero => exact .raise _
  | succ depth ih =>
    have heval : ∀ m t layer, t.Program → layer < m → Stays m Known (evaluate p depth t layer) :=
      fun m t layer h hl => ih h hl
    cases t with
    | null =>
      refine .andThen (.step (Q := fun _ _ => True) fun _ _ _ _ => trivial) fun _ _ _ _ => ?_
      exact .ret known_null
    | blank => exact .ret (known_leaf rfl (fun _ _ _ h => by cases h))
    | nil => exact .ret (known_leaf rfl (fun _ _ _ h => by cases h))
    | identifier string _ => exact getName_stays hlayer depth string
    | integer i => exact .ret (known_leaf rfl (fun _ _ _ h => by cases h))
    | string s => exact .ret (known_leaf rfl (fun _ _ _ h => by cases h))
    | sequentialDefs branches =>
      refine .andThen (evaluateAll_stays heval hlayer
        fun t ht => h.kid (List.mem_of_mem_take ht)) fun _ m hm _ => ?_
      refine .andThen (.step (Q := fun t _ => t.Program)
        fun t ht _ _ => h.kid (branchAt_mem ht)) fun t m' hm' ht => ?_
      exact heval m' t layer ht (by omega)
    | typeSpec typeName typeDef =>
      refine .andThen (addTree_stays hlayer depth h) fun _ m hm _ => ?_
      exact getName_stays (Nat.lt_of_lt_of_le hlayer hm) depth _
    | functionDef funcName parameterList body =>
      refine .andThen (addTree_stays hlayer depth h) fun _ m hm _ => ?_
      exact getName_stays (Nat.lt_of_lt_of_le hlayer hm) depth _
    | functionCall function arguments =>
      refine .andThen (heval n function layer (h.kid List.mem_cons_self) hlayer)
        fun f m hm hf => ?_
      exact callFunction_stays heval hp (Nat.lt_of_lt_of_le hlayer hm)
        (h.kid (List.mem_cons_of_mem _ List.mem_cons_self)) hf
    | letExpr var letexpr code =>
      have hlet := h.kid (List.mem_cons_of_mem _ List.mem_cons_self)
      have hcode : code.Program :=
        h.kid (List.mem_cons_of_mem _ (List.mem_cons_of_mem _ List.mem_cons_self))
      refine .andThen (heval n letexpr layer hlet hlayer) fun v m hm hv => ?_
      refine .create (Nat.lt_of_lt_of_le hlayer hm) fun q k hq hk => ?_
      refine .andThen (.step (Q := fun _ _ => True) fun _ _ _ _ => trivial) fun name k' hk' _ => ?_
      refine .andThen (addName_stays (by omega) name (hv.mono (by omega))) fun _ j hj _ => ?_
      exact heval j code q hcode (by omega)
    | operator op op1 op2 =>
      refine .andThen (heval n op1 layer (h.kid List.mem_cons_self) hlayer) fun v m hm _ => ?_
      refine .andThen (heval m op2 layer (h.kid (List.mem_cons_of_mem _ List.mem_cons_self))
        (by omega)) fun w m' hm' _ => ?_
      exact .step fun _ hr _ _ => operate_within hr
    | tuple ts =>
      refine .andThen (evaluateElements_stays heval hlayer fun t ht => h.kid ht)
        fun vs m hm hvs => ?_
      exact .ret fun k hk => .tuple fun v hv => (hvs v hv).mono hk
    | ifExpr test thenExpr elseExpr =>
      have hthen := h.kid (List.mem_cons_of_mem _ List.mem_cons_self)
      have helse := h.kid (List.mem_cons_of_mem _ (List.mem_cons_of_mem _ List.mem_cons_self))
      refine .andThen (heval n test layer (h.kid List.mem_cons_self) hlayer) fun t m hm _ => ?_
      refine .andThen (.step (Q := fun _ _ => True) fun _ _ _ _ => trivial) fun b m' hm' _ => ?_
      cases b with
      | true => exact heval m' thenExpr layer hthen (by omega)
      | false => exact heval m' elseExpr layer helse (by omega)
    | bracket typeDef => exact heval n typeDef layer (h.kid List.mem_cons_self) hlayer
    | index expr index =>
      refine .andThen (heval n expr layer (h.kid List.mem_cons_self) hlayer) fun v m hm hv => ?_
      refine .andThen (heval m index layer (h.kid (List.mem_cons_of_mem _ List.mem_cons_self))
        (by omega)) fun i m' hm' _ => ?_
      exact .step fun _ hr k hk => indexValue_within (hv.mono (by omega)) hr
    | _ => exact .ret known_null

end

/-- The states that programs get to, from one empty layer on. `Minimal_createLayer` makes a
layer in the first one. -/
inductive Reachable (p : Platform) : State → Prop
  | start : Reachable p start
  | createLayer {s} : Reachable p s → Reachable p (s.push 0)
  | evaluate {s} (depth : Nat) (t : SyntaxTree) (layer : Nat) : Reachable p s → t.Program →
    layer < s.count → Reachable p (evaluate p depth t layer s).2

theorem start_sound : Sound start :=
  ⟨fun _ h => h, fun _ h => h, fun _ _ => rfl, (fun _ _ _ h => by cases h), fun _ _ => .init⟩

theorem Reachable.sound {p : Platform} (hp : p.Honest) {s : State} (h : Reachable p s) :
    Sound s ∧ 0 < s.count := by
  induction h with
  | start => exact ⟨start_sound, Nat.zero_lt_one⟩
  | createLayer _ ih => exact ⟨ih.1.push ih.2, Nat.zero_lt_succ _⟩
  | @evaluate s depth t layer _ ht hlayer ih =>
    obtain ⟨hs, hle, _⟩ := evaluate_stays hp depth ht hlayer s ih.1 (Nat.le_refl _)
    exact ⟨hs, Nat.lt_of_lt_of_le ih.2 hle⟩

end Evaluate

end PyLinda
