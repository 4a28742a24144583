import PyLinda.Minimal.ParserRules

/-!
# Runs of the parser

Every node below a value on the stack has one reference. A step keeps this unless it shares a type,
or gives up a token that is in a node.
-/

namespace PyLinda.Parser

open Lib RefCount
open Grammar (Token)

/-- The lexer assigns to `yylval`. -/
def Kind.assigned : Kind → Bool
  | .id | .integer | .string | .operator | .testOp => true
  | _ => false

/-- The value of the symbol is used by one action, which takes it over. -/
def Symbol.owns : Symbol → Bool
  | .token k => k.assigned
  | _ => true

def Entry.owned (e : Entry) : List Addr := if e.symbol.owns then e.value.toList else []

/-- The nodes that are values on the stack. -/
def Config.owned (c : Config) : List Addr := c.stack.flatMap Entry.owned

/-- `$1`, `$2` and so on whose value the lexer did not assign, and that the action gives up. -/
def Rule.released : Rule → List Nat
  | tuple2More => [2]
  | ifExpr => [1, 3, 5, 7]
  | _ => []

/-- What is given up is in no node on the stack, and a type is not multiplied. -/
structure Spares (c : Config) (r : Rule) (values : List Ptr) : Prop where
  released : ∀ i ∈ r.released, ∀ a, dollar values i = some a → ¬ c.memory.Under c.owned a
  harmless : r = .typespecValue → ∀ a b, dollar values 2 = some a → dollar values 3 = some b →
    (c.memory.node a).Harmless (c.memory.node b)

section
variable {m m' : Memory} {a : Addr} {e : Entry} {s : Symbol} {ss : List Symbol} {ps : List Ptr}
  {us loose : List Addr}

/-- The value is there where it is taken over, and a token where it is that of a token. -/
structure Entry.Sound (m : Memory) (e : Entry) : Prop where
  filled : e.symbol.owns = true → ∃ a, e.value = some a
  token : ∀ k, e.symbol = .token k → ∀ a, e.value = some a → a < m.next ∧ (m.node a).isToken = true

theorem Entry.Sound.mono (h : e.Sound m) (hnext : m.next ≤ m'.next)
    (htoken : ∀ a < m.next, (m'.node a).isToken = (m.node a).isToken) : e.Sound m' where
  filled := h.filled
  token k hk a ha := by
    obtain ⟨hlt, ht⟩ := h.token k hk a ha
    exact ⟨Nat.lt_of_lt_of_le hlt hnext, (htoken a hlt).trans ht⟩

/-! ## Right sides -/

/-- The values of a right side. -/
structure Sides (m : Memory) (ss : List Symbol) (ps : List Ptr) : Prop where
  length : ps.length = ss.length
  sound : ∀ e ∈ List.zipWith Entry.mk ss ps, e.Sound m

theorem Sides.nil (h : Sides m [] ps) : ps = [] := List.length_eq_zero_iff.1 h.length

theorem Sides.cons (h : Sides m (s :: ss) ps) :
    ∃ p ps', ps = p :: ps' ∧ (Entry.mk s p).Sound m ∧ Sides m ss ps' := by
  cases ps with
  | nil => cases h.length
  | cons p ps' =>
    exact ⟨p, ps', rfl, h.sound _ List.mem_cons_self, Nat.succ.inj h.length,
      fun e he => h.sound e (List.mem_cons_of_mem _ he)⟩

theorem Sides.owned (h : Sides m (s :: ss) ps) (hs : s.owns = true) :
    ∃ a ps', ps = some a :: ps' ∧ (Entry.mk s (some a)).Sound m ∧ Sides m ss ps' := by
  obtain ⟨p, ps', rfl, hp, hrest⟩ := h.cons
  obtain ⟨a, rfl⟩ := hp.filled hs
  exact ⟨a, ps', rfl, hp, hrest⟩

theorem Sides.dollar {i : Nat} {k : Kind} (h : Sides m ss ps) (hs : ss[i - 1]? = some (.token k))
    (ha : Parser.dollar ps i = some a) : a < m.next ∧ (m.node a).isToken = true := by
  have hp : ps[i - 1]? = some (some a) := by
    unfold Parser.dollar at ha
    cases hp : ps[i - 1]? with
    | none =>
      rw [hp] at ha
      cases ha
    | some p =>
      rw [hp] at ha
      exact congrArg some ha
  have hmem : (Entry.mk (.token k) (some a)) ∈ List.zipWith Entry.mk ss ps := by
    refine List.mem_of_getElem? (i := i - 1) ?_
    rw [List.getElem?_zipWith, hs, hp]
  exact (h.sound _ hmem).token k rfl a rfl

theorem Rule.released_token {r : Rule} {i : Nat} (hi : i ∈ r.released) :
    ∃ k, r.rhs[i - 1]? = some (.token k) := by
  cases r with
  | tuple2More =>
    rw [List.mem_singleton.1 hi]
    exact ⟨_, rfl⟩
  | ifExpr =>
    simp only [Rule.released, List.mem_cons, List.not_mem_nil, or_false] at hi
    rcases hi with rfl | rfl | rfl | rfl
    · exact ⟨.kwIf, rfl⟩
    · exact ⟨.kwThen, rfl⟩
    · exact ⟨.kwElse, rfl⟩
    · exact ⟨.kwEndif, rfl⟩
  | _ => cases hi

variable (ss ps) in
/-- The nodes of a right side. -/
def held : List Addr := (List.zipWith Entry.mk ss ps).flatMap Entry.owned

theorem Rule.action_leaves (r : Rule) (hc : m.Coherent) (h : Sides m r.rhs ps)
    (how : m.Owned (held r.rhs ps))
    (hapart : ∀ i ∈ r.released, ∀ a, dollar ps i = some a → a ∈ loose ∧ m.Apart (held r.rhs ps) a)
    (hharmless : r = .typespecValue → ∀ a b, dollar ps 2 = some a → dollar ps 3 = some b →
      (m.node a).Harmless (m.node b)) :
    Leaves m (r.action (dollar ps)) (held r.rhs ps) theNode loose := by
  have hnone : ∀ a ∈ ([] : List Addr), a ∈ loose := fun a ha => by cases ha
  cases r with
  | inputEmpty | parameterListEmpty | midTuple2 => exact (Leaves.made (leaf_leaves hc rfl)).loosen hnone
  | inputTypespecDef | inputDefinition | inputExpr =>
    obtain ⟨a, _, rfl, -, h⟩ := h.owned rfl
    obtain ⟨b, _, rfl, -, h⟩ := h.owned rfl
    obtain ⟨_, _, rfl, -, h⟩ := h.cons
    cases h.nil
    exact (inputAction_leaves hc how).loosen hnone
  | typespecDef =>
    obtain ⟨a, _, rfl, -, h⟩ := h.owned rfl
    obtain ⟨_, _, rfl, -, h⟩ := h.cons
    obtain ⟨b, _, rfl, -, h⟩ := h.owned rfl
    cases h.nil
    exact (createTypeSpec_leaves hc how).made.loosen hnone
  | typespecId =>
    obtain ⟨a, _, rfl, -, h⟩ := h.owned rfl
    cases h.nil
    exact (typespecId_leaves hc how).loosen hnone
  | typespecUnit | exprUnit =>
    obtain ⟨_, _, rfl, -, h⟩ := h.cons
    obtain ⟨_, _, rfl, -, h⟩ := h.cons
    cases h.nil
    exact (Leaves.made (leaf_leaves hc rfl)).loosen hnone
  | typespecFunction =>
    obtain ⟨a, _, rfl, -, h⟩ := h.owned rfl
    obtain ⟨_, _, rfl, -, h⟩ := h.cons
    obtain ⟨b, _, rfl, -, h⟩ := h.owned rfl
    cases h.nil
    exact (newReference_leaves (n := .typeFunction a b) hc how).made.loosen hnone
  | typespecOperator =>
    obtain ⟨a, _, rfl, -, h⟩ := h.owned rfl
    obtain ⟨v, _, rfl, hv, h⟩ := h.owned rfl
    obtain ⟨b, _, rfl, -, h⟩ := h.owned rfl
    cases h.nil
    exact (typespecOperator_leaves hc how (hv.token _ rfl v rfl).2).loosen hnone
  | typespecValue =>
    obtain ⟨a, _, rfl, -, h⟩ := h.owned rfl
    obtain ⟨v, _, rfl, -, h⟩ := h.owned rfl
    obtain ⟨c, _, rfl, -, h⟩ := h.owned rfl
    cases h.nil
    exact (typespecValue_leaves hc how (hharmless rfl v c rfl rfl)).loosen hnone
  | typespecBracket =>
    obtain ⟨_, _, rfl, -, h⟩ := h.cons
    obtain ⟨a, _, rfl, -, h⟩ := h.owned rfl
    obtain ⟨_, _, rfl, -, h⟩ := h.cons
    cases h.nil
    exact (newReference_leaves (n := .bracket a) hc how).made.loosen hnone
  | typespecPointer =>
    obtain ⟨v, _, rfl, -, h⟩ := h.owned rfl
    obtain ⟨_, _, rfl, -, h⟩ := h.cons
    obtain ⟨a, _, rfl, -, h⟩ := h.owned rfl
    obtain ⟨_, _, rfl, -, h⟩ := h.cons
    cases h.nil
    exact (typespecPointer_leaves hc how).loosen hnone
  | definition =>
    obtain ⟨v, _, rfl, -, h⟩ := h.owned rfl
    obtain ⟨a, _, rfl, -, h⟩ := h.owned rfl
    obtain ⟨_, _, rfl, -, h⟩ := h.cons
    obtain ⟨b, _, rfl, -, h⟩ := h.owned rfl
    cases h.nil
    exact (createFunctionDef_leaves hc how).made.loosen hnone
  | exprValue | exprFunctionCall | exprTuple | exprIfExpr | exprTestExpr | exprLetExpr | valueInteger | valueString =>
    obtain ⟨a, _, rfl, -, h⟩ := h.owned rfl
    cases h.nil
    exact .same hc how List.mem_cons_self
  | exprBrackets =>
    obtain ⟨_, _, rfl, -, h⟩ := h.cons
    obtain ⟨a, _, rfl, -, h⟩ := h.owned rfl
    obtain ⟨_, _, rfl, -, h⟩ := h.cons
    cases h.nil
    exact .same hc how List.mem_cons_self
  | exprIndex =>
    obtain ⟨a, _, rfl, -, h⟩ := h.owned rfl
    obtain ⟨_, _, rfl, -, h⟩ := h.cons
    obtain ⟨b, _, rfl, -, h⟩ := h.owned rfl
    obtain ⟨_, _, rfl, -, h⟩ := h.cons
    cases h.nil
    exact (newReference_leaves (n := .index a b) hc how).made.loosen hnone
  | exprOperator | testExpr =>
    obtain ⟨a, _, rfl, -, h⟩ := h.owned rfl
    obtain ⟨v, _, rfl, -, h⟩ := h.owned rfl
    obtain ⟨b, _, rfl, -, h⟩ := h.owned rfl
    cases h.nil
    exact (createOperator_leaves hc how).made.loosen hnone
  | valueId =>
    obtain ⟨a, _, rfl, -, h⟩ := h.owned rfl
    cases h.nil
    exact (valueId_leaves hc how).loosen hnone
  | parameterListId =>
    obtain ⟨a, _, rfl, -, h⟩ := h.owned rfl
    obtain ⟨b, _, rfl, -, h⟩ := h.owned rfl
    cases h.nil
    exact (parameterListId_leaves hc how).loosen hnone
  | functionCallUnit =>
    obtain ⟨a, _, rfl, -, h⟩ := h.owned rfl
    obtain ⟨_, _, rfl, -, h⟩ := h.cons
    obtain ⟨_, _, rfl, -, h⟩ := h.cons
    cases h.nil
    exact (newReference_leaves (n := .functionCall a none) hc how).made.loosen hnone
  | functionCallArguments =>
    obtain ⟨a, _, rfl, -, h⟩ := h.owned rfl
    obtain ⟨_, _, rfl, -, h⟩ := h.cons
    obtain ⟨b, _, rfl, -, h⟩ := h.owned rfl
    obtain ⟨_, _, rfl, -, h⟩ := h.cons
    cases h.nil
    exact (newReference_leaves (n := .functionCall a (some b)) hc how).made.loosen hnone
  | argumentListOne =>
    obtain ⟨a, _, rfl, -, h⟩ := h.owned rfl
    cases h.nil
    exact (createArgumentList1_leaves hc how).made.loosen hnone
  | argumentListMore =>
    obtain ⟨a, _, rfl, -, h⟩ := h.owned rfl
    obtain ⟨_, _, rfl, -, h⟩ := h.cons
    obtain ⟨b, _, rfl, -, h⟩ := h.owned rfl
    cases h.nil
    exact (createArgumentList2_leaves hc how).made.loosen hnone
  | tuple =>
    obtain ⟨a, _, rfl, -, h⟩ := h.owned rfl
    obtain ⟨_, _, rfl, -, h⟩ := h.cons
    obtain ⟨b, _, rfl, -, h⟩ := h.owned rfl
    cases h.nil
    exact (tupleAction_leaves hc how).loosen hnone
  | tuple2First =>
    obtain ⟨a, _, rfl, -, h⟩ := h.owned rfl
    obtain ⟨b, _, rfl, -, h⟩ := h.owned rfl
    cases h.nil
    refine Leaves.take ((newReference_leaves (n := .tuple [a]) hc (Memory.owned_cons.1 how).1).made.loosen
      hnone) fun x hx => ?_
    rw [List.mem_singleton.1 hx]
    exact List.mem_cons_self
  | tuple2More =>
    obtain ⟨a, _, rfl, -, h⟩ := h.owned rfl
    obtain ⟨p, _, rfl, -, h⟩ := h.cons
    obtain ⟨b, _, rfl, -, h⟩ := h.owned rfl
    cases h.nil
    refine (tuple2More_leaves hc how fun x hx => (hapart 2 List.mem_cons_self x hx).2).loosen ?_
    intro x hx
    exact (hapart 2 List.mem_cons_self x (Option.mem_toList.1 hx)).1
  | ifExpr =>
    obtain ⟨q1, _, rfl, -, h⟩ := h.cons
    obtain ⟨a, _, rfl, -, h⟩ := h.owned rfl
    obtain ⟨q3, _, rfl, -, h⟩ := h.cons
    obtain ⟨b, _, rfl, -, h⟩ := h.owned rfl
    obtain ⟨q5, _, rfl, -, h⟩ := h.cons
    obtain ⟨c, _, rfl, -, h⟩ := h.owned rfl
    obtain ⟨q7, _, rfl, -, h⟩ := h.cons
    cases h.nil
    refine ifExprAction_leaves hc how ?_
    simp only [List.forall_mem_cons]
    exact ⟨hapart 1 (by decide), hapart 3 (by decide), hapart 5 (by decide), hapart 7 (by decide),
      fun p hp => by cases hp⟩
  | letExpr =>
    obtain ⟨_, _, rfl, -, h⟩ := h.cons
    obtain ⟨v, _, rfl, -, h⟩ := h.owned rfl
    obtain ⟨_, _, rfl, -, h⟩ := h.cons
    obtain ⟨a, _, rfl, -, h⟩ := h.owned rfl
    obtain ⟨b, _, rfl, -, h⟩ := h.owned rfl
    cases h.nil
    exact (newReference_leaves (n := .letExpr v a b) hc how).made.loosen hnone

end

/-! ## Steps -/

structure Config.Sound (c : Config) : Prop where
  coherent : c.memory.Coherent
  owned : c.memory.Owned c.owned
  entries : ∀ e ∈ c.stack, e.Sound c.memory

theorem tokenNode_some {t : Token} {n : Node} (h : tokenNode t = some n) :
    (kind t).assigned = true ∧ n.refs = [] ∧ n.isToken = true := by
  cases t with
  | id s | integer i | string s | operator s | testOp s =>
    cases h
    exact ⟨rfl, rfl, rfl⟩
  | _ => cases h

theorem tokenNode_none {t : Token} (h : tokenNode t = none) : (kind t).assigned = false := by
  cases t with
  | id s | integer i | string s | operator s | testOp s => cases h
  | _ => rfl

theorem Rule.lhs_owns (r : Rule) : r.lhs.owns = true := by
  cases r <;> rfl

section
variable {m m' : Memory} {stack : List Entry} {ts : List Token} {t : Token} {r : Rule} {v : Ptr}
  {values : List Ptr} {c c' : Config}

theorem shift_sound (h : Config.Sound ⟨stack, t :: ts, m⟩) :
    Config.Sound ⟨⟨.token (kind t), (m.lex t).yylval⟩ :: stack, ts, m.lex t⟩ := by
  obtain ⟨hc, how, hentries⟩ := h
  have how : m.Owned (stack.flatMap Entry.owned) := how
  cases ht : tokenNode t with
  | none =>
    have hlex : m.lex t = m := by
      unfold Memory.lex
      rw [ht]
    have hnew : (Entry.mk (.token (kind t)) m.yylval).owned = [] := by
      unfold Entry.owned Symbol.owns
      simp only
      rw [tokenNode_none ht]
      exact if_neg Bool.false_ne_true
    rw [hlex]
    refine ⟨hc, ?_, List.forall_mem_cons.2 ⟨⟨fun ho => ?_, fun k _ => hc.yylval⟩, hentries⟩⟩
    · show m.Owned (Entry.owned _ ++ stack.flatMap Entry.owned)
      rw [hnew]
      exact how
    · have hfalse : (kind t).assigned = true := ho
      rw [tokenNode_none ht] at hfalse
      cases hfalse
  | some n =>
    obtain ⟨hassigned, hleaf, htoken⟩ := tokenNode_some ht
    have hlex : m.lex t = { m.alloc n with yylval := some m.next } := by
      unfold Memory.lex
      rw [ht]
    have how' : m.Owned (n.refs ++ stack.flatMap Entry.owned) := by
      rw [hleaf]
      exact how
    obtain ⟨hall, hf⟩ := (newReference_leaves hc (Memory.owned_append.1 how').1).beside hc how'
      m.next (m.alloc n) rfl
    have hnode : (m.alloc n).node m.next = n := Memory.alloc_new.2
    have hnew : (Entry.mk (.token (kind t)) (some m.next)).owned = [m.next] := if_pos hassigned
    have hval : m.next < m.next + 1 ∧ ((m.alloc n).node m.next).isToken = true := by
      rw [hnode]
      exact ⟨Nat.lt_succ_self _, htoken⟩
    rw [hlex]
    refine ⟨⟨hf.coherent.objs, hf.coherent.nowhere, hf.coherent.pos, fun a ha => ?_⟩, ?_,
      List.forall_mem_cons.2 ⟨⟨fun _ => ⟨m.next, rfl⟩, fun k _ a ha => ?_⟩, fun e he => ?_⟩⟩
    · cases ha
      exact hval
    · show (m.alloc n).Owned (Entry.owned ⟨.token (kind t), some m.next⟩ ++ stack.flatMap Entry.owned)
      rw [hnew]
      exact hall
    · cases ha
      exact hval
    · exact (hentries e he).mono hf.next hf.token

theorem entries_owned_perm : ((entries r.rhs values).flatMap Entry.owned).Perm (held r.rhs values) :=
  (List.reverse_perm _).flatMap_right _

theorem reduce_sound (h : Config.Sound ⟨entries r.rhs values ++ stack, ts, m⟩)
    (hlen : values.length = r.rhs.length)
    (hspares : Spares ⟨entries r.rhs values ++ stack, ts, m⟩ r values)
    (hrun : r.action (dollar values) m = (.ok v, m')) :
    Config.Sound ⟨⟨r.lhs, v⟩ :: stack, ts, m'⟩ := by
  obtain ⟨hc, how, hentries⟩ := h
  have hperm : (Config.owned ⟨entries r.rhs values ++ stack, ts, m⟩).Perm
      (held r.rhs values ++ stack.flatMap Entry.owned) := by
    unfold Config.owned
    rw [List.flatMap_append]
    exact entries_owned_perm.append_right _
  have how : m.Owned (held r.rhs values ++ stack.flatMap Entry.owned) := how.perm hperm
  have hsides : Sides m r.rhs values := ⟨hlen, fun e he =>
    hentries e (List.mem_append_left _ (List.mem_reverse.2 he))⟩
  -- the tokens that are given up
  obtain ⟨loose, hloose⟩ : ∃ loose : List Addr, loose = r.released.flatMap fun i => (dollar values i).toList :=
    ⟨_, rfl⟩
  have hmem : ∀ a, a ∈ loose ↔ ∃ i ∈ r.released, dollar values i = some a := by
    intro a
    rw [hloose, List.mem_flatMap]
    exact exists_congr fun i => and_congr_right fun _ => Option.mem_toList
  have hapart : ∀ a ∈ loose, ¬ m.Under (held r.rhs values ++ stack.flatMap Entry.owned) a := by
    intro a ha hu
    obtain ⟨i, hi, hia⟩ := (hmem a).1 ha
    exact hspares.released i hi a hia (hu.mono fun w hw => hperm.mem_iff.2 hw)
  have htoken : ∀ i ∈ r.released, ∀ a, dollar values i = some a →
      a < m.next ∧ (m.node a).isToken = true := by
    intro i hi a ha
    obtain ⟨k, hk⟩ := Rule.released_token hi
    exact hsides.dollar hk ha
  have hleaves := @Rule.action_leaves m values loose r hc hsides (Memory.owned_append.1 how).1
    (fun i hi a ha => ⟨(hmem a).2 ⟨i, hi, ha⟩, (htoken i hi a ha).1, (htoken i hi a ha).2, fun hu =>
      hapart a ((hmem a).2 ⟨i, hi, ha⟩) (Memory.under_append.2 (.inl hu))⟩) hspares.harmless
  obtain ⟨hv, hf⟩ := hleaves v m' hrun
  obtain ⟨a, rfl⟩ := hv.node hf.coherent
  obtain ⟨hall, _⟩ := hf.beside hc how hv fun a ha hu => hapart a ha (Memory.under_append.2 (.inr hu))
  refine ⟨hf.coherent, ?_, List.forall_mem_cons.2 ⟨⟨fun _ => ⟨a, rfl⟩, fun k hk => ?_⟩, fun e he => ?_⟩⟩
  · have hnew : (Entry.mk r.lhs (some a)).owned = [a] := if_pos r.lhs_owns
    show m'.Owned (Entry.owned ⟨r.lhs, some a⟩ ++ stack.flatMap Entry.owned)
    rw [hnew]
    exact hall
  · cases r <;> cases hk
  · exact (hentries e (List.mem_append_right _ he)).mono hf.next hf.token

theorem step_sound {move : Move} (h : c.Sound)
    (hspares : ∀ r values, move = .reduce r values → Spares c r values) (hstep : Step c move c') :
    c'.Sound := by
  cases hstep with
  | shift => exact shift_sound h
  | reduce hlen hrun => exact reduce_sound h hlen (hspares _ _ rfl) hrun

end

/-! ## Counts -/

/-- The nodes that a node leads to are there, with a count of the references among them and of one
for that node itself. -/
def Memory.Balanced (m : Memory) (root : Addr) : Prop :=
  ∃ L : Finset Addr, (∀ a, a ∈ L ↔ Leads m.refs root a) ∧
    ∀ a ∈ L, ∃ o, m.heap.objs a = some o ∧
      o.refCount = inRefs m.refs L a + if a = root then 1 else 0

theorem Memory.Owned.balanced {m : Memory} {root : Addr} (h : m.Owned [root]) : m.Balanced root := by
  obtain ⟨ns, hf, hnodup, hsole⟩ := h
  have hmem : ∀ a, a ∈ ns ↔ Leads m.refs root a := by
    intro a
    rw [hf.mem_iff]
    constructor
    · intro ⟨v, hv, hl⟩
      exact List.mem_singleton.1 hv ▸ hl
    · exact fun hl => ⟨root, List.mem_cons_self, hl⟩
  refine ⟨ns.toFinset, fun a => List.mem_toFinset.trans (hmem a), fun a ha => ?_⟩
  have ha : a ∈ ns := List.mem_toFinset.1 ha
  refine ⟨_, hsole a ha, ?_⟩
  have hways := hf.count a
  rw [List.count_eq_one_of_mem hnodup ha, count_flatMap a ns hnodup] at hways
  show (1 : Int) = inRefs m.refs ns.toFinset a + if a = root then 1 else 0
  by_cases har : a = root
  · rw [har, List.count_singleton_self] at hways
    rw [if_pos har, har]
    omega
  · rw [List.count_eq_zero.2 fun hr => har (List.mem_singleton.1 hr)] at hways
    rw [if_neg har]
    omega

/-- A part of what is owned. -/
theorem Memory.Owned.of_mem {m : Memory} {vs : List Addr} {a : Addr} (h : m.Owned vs) (ha : a ∈ vs) :
    m.Owned [a] := by
  obtain ⟨l, r, rfl⟩ := List.append_of_mem ha
  exact (Memory.owned_cons.1 (Memory.owned_append.1 h).2.1).1

theorem Config.start_sound {m : Memory} (hc : m.Coherent) (ts : List Token) : (Config.start m ts).Sound :=
  ⟨hc, Memory.owned_nil, fun e he => by cases he⟩

/-- Before the first parse. -/
def Memory.empty : Memory := ⟨⟨fun _ => none, []⟩, fun _ => .blank, 1, none⟩

theorem Memory.empty_coherent : Memory.empty.Coherent where
  objs := by
    intro a o ho
    cases ho
  nowhere := rfl
  pos := Nat.one_pos
  yylval a ha := by cases ha

/-- A step that reduces to what the action has made. -/
theorem Step.of_action {r : Rule} {values : List Ptr} {stack : List Entry} {ts : List Token} {m : Memory}
    {v : Ptr} (hlen : values.length = r.rhs.length) (h : (r.action (dollar values) m).1 = .ok v) :
    Step ⟨entries r.rhs values ++ stack, ts, m⟩ (.reduce r values)
      ⟨⟨r.lhs, v⟩ :: stack, ts, (r.action (dollar values) m).2⟩ :=
  .reduce hlen (Prod.ext h rfl)

/-- Most rules give up no such token and multiply no type. -/
theorem Spares.of_rule {c : Config} {r : Rule} {values : List Ptr} (hr : r.released = [])
    (hvalue : r ≠ .typespecValue) : Spares c r values where
  released i hi := by
    rw [hr] at hi
    cases hi
  harmless h := absurd h hvalue

end PyLinda.Parser
