import PyLinda.Lib.Except
import PyLinda.Lib.Explored
import PyLinda.Lib.Marking

/-!
# Broadcasts

`broadcast_message` and `broadcast_firstreplyonly` of `connections.py`. Both work off a queue of
nodes and ask every node for its neighbours. What a node answers may depend on how many were
contacted before it, since connecting to a node makes it a neighbour.
-/

namespace PyLinda.Broadcast

open Lib Relation

/-- `dont_know`. -/
def dontKnow : String := "DONT_KNOW"

/-- An answer: `m[0]`, and the rest. -/
structure Msg (α : Type) where
  action : String
  body : α

/-- What `sendMessageToNode` returns for the message and for `get_neighbours`, for the node that
is contacted at this place; `None` when the connection is broken. -/
structure Network (N α : Type) where
  answer : Nat → N → Option (Msg α)
  neighbours : Nat → N → Option (Msg (List N))

/-- How a broadcast ends otherwise: `sendMessageToNode` refuses to send to the node itself, or
there were more rounds than allowed. -/
inductive Stop where
  | assertionError
  | outOfFuel

section
variable {N α : Type} [DecidableEq N]

/-- `m is not None and m[0] != dont_know`. -/
def known {β : Type} (m : Option (Msg β)) : Option (Msg β) := m.filter fun m => m.action ≠ dontKnow

/-- The nodes that an answer to `get_neighbours` adds. -/
def discovered (m : Option (Msg (List N))) : List N := ((known m).map Msg.body).getD []

section
variable (me : N) (net : Network N α)

/-- `sendMessageToNode` with `msgid` `None`. -/
def sendMessageToNode {β : Type} (node : N) (answer : Option (Msg β)) :
    Except Stop (Option (Msg β)) :=
  if node = me then .error .assertionError else .ok answer

/-- The loop of `broadcast_message`: `memo` and `r` at its end. -/
def messageLoop : (fuel : Nat) → List N → List N → List (Msg α) →
    Except Stop (List N × List (Msg α))
  | 0, _, _, _ => .error .outOfFuel
  | _ + 1, [], memo, r => .ok (memo, r)
  | fuel + 1, node :: todo, memo, r =>
    if node ∈ memo then messageLoop fuel todo memo r
    else do
      let m ← sendMessageToNode me node (net.answer memo.length node)
      let n ← sendMessageToNode me node (net.neighbours memo.length node)
      messageLoop fuel (todo ++ discovered n) (memo ++ [node]) (r ++ (known m).toList)

/-- `broadcast_message` with these keys of `neighbours`: the nodes it contacts in their order,
and what it returns. -/
def broadcastMessage (fuel : Nat) (keys : List N) : Except Stop (List N × List (Msg α)) :=
  (messageLoop me net fuel keys [me] []).map fun p => (p.1.tail, p.2)

/-- The loop of `broadcast_firstreplyonly`: `memo` at its end, and a reply. -/
def firstLoop : (fuel : Nat) → List N → List N → Except Stop (List N × Option (Msg α))
  | 0, _, _ => .error .outOfFuel
  | _ + 1, [], memo => .ok (memo, none)
  | fuel + 1, node :: todo, memo =>
    if node ∈ memo then firstLoop fuel todo memo
    else do
      let m ← sendMessageToNode me node (net.answer memo.length node)
      match known m with
      | some m => .ok (memo ++ [node], some m)
      | none => do
        let n ← sendMessageToNode me node (net.neighbours memo.length node)
        firstLoop fuel (todo ++ discovered n) (memo ++ [node])

/-- `broadcast_firstreplyonly`; `none` is `dont_know`. -/
def broadcastFirstreplyonly (fuel : Nat) (keys : List N) :
    Except Stop (List N × Option (Msg α)) :=
  (firstLoop me net fuel keys [me]).map fun p => (p.1.tail, p.2)

end

/-! ## What they are for -/

/-- Every node has this list of neighbours, apart from the node that broadcasts, and says so. -/
structure Fair (me : N) (graph : N → List N) (net : Network N α) : Prop where
  lists : ∀ k n, n ≠ me → ∃ m, known (net.neighbours k n) = some m ∧
    ∀ x, x ≠ me → (x ∈ m.body ↔ x ∈ graph n)

/-- The replies other than `dont_know`, of nodes contacted from place `k` on. -/
def replies (net : Network N α) : Nat → List N → List (Msg α)
  | _, [] => []
  | k, n :: ns => (known (net.answer k n)).toList ++ replies net (k + 1) ns

/-- Only the first nodes were contacted: up to the one that replied first, or all of them. -/
inductive FirstReply (net : Network N α) (k : Nat) (visited : List N) :
    List N → Option (Msg α) → Prop
  | reply (before : List N) (node : N) (rest : List N) (m : Msg α) :
    visited = before ++ node :: rest → replies net k before = [] →
    known (net.answer (k + before.length) node) = some m →
    FirstReply net k visited (before ++ [node]) (some m)
  | dontKnow : replies net k visited = [] → FirstReply net k visited visited none

section
variable {me : N} {net : Network N α} {graph : N → List N}

omit [DecidableEq N] in
theorem FirstReply.cons {k : Nat} {n : N} {visited contacted : List N} {result : Option (Msg α)}
    (hn : known (net.answer k n) = none) (h : FirstReply net (k + 1) visited contacted result) :
    FirstReply net k (n :: visited) (n :: contacted) result := by
  have hcons : ∀ ns, replies net k (n :: ns) = replies net (k + 1) ns := by
    intro ns
    unfold replies
    rw [hn]
    cases ns <;> rfl
  cases h with
  | reply before node rest m hv hb hm =>
    refine .reply (n :: before) node rest m (congrArg (n :: ·) hv) ((hcons before).trans hb) ?_
    rw [List.length_cons, ← Nat.add_assoc, Nat.add_right_comm]
    exact hm
  | dontKnow h => exact .dontKnow ((hcons visited).trans h)

/-- The neighbours as a search of `Marking` sees them. -/
def look (graph : N → List N) (n : N) : Visit N Unit := .expand (graph n)

/-- A node is contacted: its neighbours are in the memo or in the queue now. -/
theorem Marked.contact {memo todo : List N} {node : N} {l : List N} (hme : me ∈ memo)
    (h : Marked (look graph) memo (node :: todo))
    (hl : ∀ x, x ≠ me → (x ∈ l ↔ x ∈ graph node)) :
    Marked (look graph) (memo ++ [node]) (todo ++ l) := by
  have hbase : Marked (look graph) (memo ++ [node]) (todo ++ graph node) := h.expand rfl
  intro x hx
  obtain ⟨s, hs, hsucc⟩ := hbase x hx
  refine ⟨s, hs, fun y hy => ?_⟩
  by_cases hym : y = me
  · exact Or.inl (List.mem_append_left _ (hym ▸ hme))
  · rcases hsucc y hy with hm | ht
    · exact Or.inl hm
    · refine Or.inr (List.mem_append.2 ((List.mem_append.1 ht).imp_right fun hg => ?_))
      exact (hl y hym).2 hg

/-- How the two loops end from a queue and a memo: the same nodes `w` are contacted, as far as
the second goes. -/
structure Ended (me : N) (net : Network N α) (graph : N → List N) (Q : N → Prop)
    (memo todo w : List N) : Prop where
  message : ∃ fuel, ∀ r, messageLoop me net fuel todo memo r =
    .ok (memo ++ w, r ++ replies net memo.length w)
  first : ∃ fuel contacted result, firstLoop me net fuel todo memo = .ok (memo ++ contacted, result) ∧
    FirstReply net memo.length w contacted result
  nodup : (memo ++ w).Nodup
  origin : ∀ x ∈ w, Q x
  all : todo ⊆ memo ++ w
  closed : Marked (look graph) (memo ++ w) []

theorem sendMessageToNode_ok {β : Type} {node : N} (h : node ≠ me) (m : Option (Msg β)) :
    sendMessageToNode me node m = .ok m := if_neg h

/-- The node was in the memo. -/
theorem Ended.skip {Q : N → Prop} {memo todo w : List N} {node : N} (hin : node ∈ memo)
    (h : Ended me net graph Q memo todo w) : Ended me net graph Q memo (node :: todo) w where
  message := by
    obtain ⟨fuel, hf⟩ := h.message
    refine ⟨fuel + 1, fun r => ?_⟩
    unfold messageLoop
    rw [if_pos hin]
    exact hf r
  first := by
    obtain ⟨fuel, contacted, result, hf, hspec⟩ := h.first
    refine ⟨fuel + 1, contacted, result, ?_, hspec⟩
    unfold firstLoop
    rw [if_pos hin]
    exact hf
  nodup := h.nodup
  origin := h.origin
  all := List.cons_subset.2 ⟨List.mem_append_left _ hin, h.all⟩
  closed := h.closed

/-- The node is contacted, and then the rest. -/
theorem Ended.contact {Q : N → Prop} {memo todo w : List N} {node : N} (hin : node ∉ memo)
    (hme : node ≠ me) (hQ : Q node)
    (h : Ended me net graph Q (memo ++ [node])
      (todo ++ discovered (net.neighbours memo.length node)) w) :
    Ended me net graph Q memo (node :: todo) (node :: w) where
  message := by
    obtain ⟨fuel, hf⟩ := h.message
    refine ⟨fuel + 1, fun r => ?_⟩
    unfold messageLoop
    rw [if_neg hin, sendMessageToNode_ok hme, sendMessageToNode_ok hme]
    refine (hf _).trans ?_
    rw [List.length_append, List.append_assoc, List.append_assoc]
    rfl
  first := by
    obtain ⟨fuel, contacted, result, hf, hspec⟩ := h.first
    cases hk : known (net.answer memo.length node) with
    | some m =>
      refine ⟨1, [node], some m, ?_, .reply [] node w m rfl rfl hk⟩
      unfold firstLoop
      rw [if_neg hin, sendMessageToNode_ok hme]
      simp only [bind, Except.bind, hk]
    | none =>
      refine ⟨fuel + 1, node :: contacted, result, ?_, .cons hk (by
        rw [List.length_append] at hspec; exact hspec)⟩
      unfold firstLoop
      rw [if_neg hin, sendMessageToNode_ok hme, sendMessageToNode_ok hme,
        List.append_cons memo node contacted]
      simp only [bind, Except.bind, hk]
      exact hf
  nodup := List.append_cons memo node w ▸ h.nodup
  origin x hx := by
    rcases List.mem_cons.1 hx with rfl | hx
    · exact hQ
    · exact h.origin x hx
  all := by
    rw [List.append_cons]
    exact List.cons_subset.2 ⟨List.mem_append_left _ (List.mem_append_right _ (.head _)),
      List.Subset.trans (List.subset_append_left _ _) h.all⟩
  closed := List.append_cons memo node w ▸ h.closed

/-- Both loops come to an end over finitely many nodes. -/
theorem exists_ended (hfair : Fair me graph net) {nodes : List N} {Q : N → Prop}
    (hgraph : ∀ x, Q x → ∀ y ∈ graph x, y ≠ me → Q y ∧ y ∈ nodes) (memo todo : List N)
    (hme : me ∈ memo) (hn : memo.Nodup) (htodo : ∀ x ∈ todo, x ≠ me → Q x ∧ x ∈ nodes)
    (hm : Marked (look graph) memo todo) : ∃ w, Ended me net graph Q memo todo w := by
  match todo with
  | [] =>
    refine ⟨[], ⟨1, fun r => ?_⟩, ⟨1, [], none, ?_, .dontKnow rfl⟩, ?_, ?_, List.nil_subset _, ?_⟩
    · unfold messageLoop replies
      rw [List.append_nil, List.append_nil]
    · unfold firstLoop
      rw [List.append_nil]
    · rwa [List.append_nil]
    · exact fun x hx => absurd hx List.not_mem_nil
    · rwa [List.append_nil]
  | node :: todo =>
    have htodo' : ∀ x ∈ todo, x ≠ me → Q x ∧ x ∈ nodes :=
      fun x hx => htodo x (List.mem_cons_of_mem _ hx)
    by_cases hin : node ∈ memo
    · obtain ⟨w, hw⟩ := exists_ended hfair hgraph memo todo hme hn htodo' (hm.skip hin)
      exact ⟨w, hw.skip hin⟩
    · have hne : node ≠ me := fun he => hin (he ▸ hme)
      obtain ⟨hQ, hnode⟩ := htodo node List.mem_cons_self hne
      obtain ⟨m, hk, hl⟩ := hfair.lists memo.length node hne
      have hdisc : discovered (net.neighbours memo.length node) = m.body := by
        unfold discovered
        rw [hk]
        rfl
      have hlt := outside_enter hnode hin
      obtain ⟨w, hw⟩ := exists_ended hfair hgraph (memo ++ [node]) (todo ++ m.body)
        (List.mem_append_left _ hme)
        (List.nodup_append.2 ⟨hn, List.pairwise_singleton _ node, fun a ha b hb => by
          obtain rfl := List.mem_singleton.1 hb
          exact fun he => hin (he ▸ ha)⟩)
        (fun x hx hxm => (List.mem_append.1 hx).elim (fun hx => htodo' x hx hxm)
          fun hx => hgraph node hQ x ((hl x hxm).1 hx) hxm)
        (Marked.contact hme hm hl)
      exact ⟨node :: w, Ended.contact hin hne hQ (hdisc ▸ hw)⟩
termination_by (outside nodes memo, todo.length)
decreasing_by
  · exact Prod.Lex.right _ (Nat.lt_succ_self _)
  · exact Prod.Lex.left _ _ hlt

/-- The nodes that a broadcast is for: those that can be reached from the table of neighbours,
apart from the node itself. -/
def Receives (me : N) (graph : N → List N) (x : N) : Prop :=
  x ≠ me ∧ ∃ s ∈ graph me, ReflTransGen (fun a b => b ∈ graph a) s x

/-- On a finite network both broadcasts come to an end. The first sends the message to every
node that can be reached, once each, never to the node itself, and returns the replies other
than `dont_know`; the second stops at the first of these. -/
theorem broadcast_exact (me : N) (graph : N → List N) (net : Network N α)
    (hfair : Fair me graph net) (nodes : List N) (hfin : ∀ x, ∀ y ∈ graph x, y ∈ nodes) :
    ∃ visited : List N, visited.Nodup ∧ (∀ x, x ∈ visited ↔ Receives me graph x) ∧
      (∃ fuel, broadcastMessage me net fuel (graph me) = .ok (visited, replies net 1 visited)) ∧
      ∃ fuel contacted result,
        broadcastFirstreplyonly me net fuel (graph me) = .ok (contacted, result) ∧
          FirstReply net 1 visited contacted result := by
  have hgraph : ∀ x, Receives me graph x → ∀ y ∈ graph x, y ≠ me →
      Receives me graph y ∧ y ∈ nodes := fun x ⟨_, s, hs, hsx⟩ y hy hym =>
    ⟨⟨hym, s, hs, hsx.tail hy⟩, hfin x y hy⟩
  have hmarked : Marked (look graph) [me] (graph me) := by
    intro x hx
    obtain rfl := List.mem_singleton.1 hx
    exact ⟨graph x, rfl, fun y hy => Or.inr hy⟩
  obtain ⟨w, hw⟩ := exists_ended hfair hgraph [me] (graph me) (.head _)
    (List.pairwise_singleton _ me) (fun x hx hxm => ⟨⟨hxm, x, hx, .refl⟩, hfin me x hx⟩) hmarked
  obtain ⟨hmew, hnodup⟩ := List.nodup_cons.1 hw.nodup
  refine ⟨w, hnodup, fun x => ⟨hw.origin x, fun ⟨hxm, s, hs, hsx⟩ => ?_⟩, ?_, ?_⟩
  · have hedges : ReflTransGen (Edge (look graph)) s x := hsx
    exact (List.mem_cons.1 (hw.closed.closed (hw.all hs) hedges)).resolve_left hxm
  · obtain ⟨fuel, hf⟩ := hw.message
    refine ⟨fuel, ?_⟩
    unfold broadcastMessage
    rw [hf []]
    rfl
  · obtain ⟨fuel, contacted, result, hf, hspec⟩ := hw.first
    refine ⟨fuel, contacted, result, ?_, hspec⟩
    unfold broadcastFirstreplyonly
    rw [hf]
    rfl

end

end

/-! ## Three nodes -/

/-- Node 0 knows of 1, which knows of 2, which knows of 1; both are neighbours of 0 once it has
connected to them. Node 1 does not know the answer. -/
def threeNodes : Nat → List Nat
  | 0 => [1]
  | 1 => [2]
  | 2 => [1]
  | _ => []

def threeNodesNet : Network Nat Nat where
  answer _ n := some ⟨if n = 1 then dontKnow else "DONE", n⟩
  neighbours _ n := some ⟨"RESULT_TUPLE", 0 :: threeNodes n⟩

theorem threeNodes_broadcast : ∃ visited : List Nat, visited.Nodup ∧
    (∀ x, x ∈ visited ↔ Receives 0 threeNodes x) ∧
    (∃ fuel, broadcastMessage 0 threeNodesNet fuel [1] =
      .ok (visited, replies threeNodesNet 1 visited)) ∧
    ∃ fuel contacted result,
      broadcastFirstreplyonly 0 threeNodesNet fuel [1] = .ok (contacted, result) ∧
        FirstReply threeNodesNet 1 visited contacted result := by
  refine broadcast_exact 0 threeNodes threeNodesNet ⟨fun k n _ => ?_⟩ [1, 2] fun x y hy => ?_
  · refine ⟨_, rfl, fun x hx => ⟨fun h => ?_, List.mem_cons_of_mem _⟩⟩
    exact (List.mem_cons.1 h).resolve_left hx
  · match x with
    | 0 | 2 =>
      obtain rfl := List.mem_singleton.1 hy
      decide
    | 1 =>
      obtain rfl := List.mem_singleton.1 hy
      decide
    | _ + 3 => cases hy

end PyLinda.Broadcast
