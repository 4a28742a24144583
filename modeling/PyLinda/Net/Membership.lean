import Mathlib.Data.List.Perm.Basic
import Mathlib.Data.List.Nodup
import PyLinda.Lib.Run

/-!
# Who holds a partition

The nodes that hold a partition of one tuplespace, as the thread `register`, the
handlers of `register_partition`, `get_partitions` and `deleted_partition`, and the
finaliser `__del__` keep the lists `partitions`. An exchange of a message and its
answer is one step; everything else interleaves.

A node that joins learns of the others from the list it fetches, and of those that
join later from their announcements. Nothing says which of the two a node that joins
at the same time belongs to: `membership_agrees` is about runs in which nobody joins
while another node joins or leaves.
-/

namespace PyLinda.Membership

open Lib

/-- Where a `TupleSpace` object is: in its thread `register`, at rest, or in `__del__`. -/
inductive Phase (N : Type) where
  | announce (todo : List N)
  | fetch (todo : List N)
  | got (ps : List N)
  | idle
  | deleting (todo : List N)
  | dead
  deriving DecidableEq

/-- A `TupleSpace` object; `constructed` until its container has it. -/
structure Part (N : Type) where
  node : N
  partitions : List N := []
  phase : Phase N
  constructed : Bool := true
  deriving DecidableEq

/-- The objects, in the order of their construction, and `local_ts` of every node. -/
structure Cluster (N : Type) where
  parts : List (Part N)
  held : N → Option Nat

/-- `order` is the order in which a broadcast visits the other nodes. -/
inductive Event (N : Type) where
  | create (n : N) (order : List N)
  | install (o : Nat)
  | announce (o : Nat)
  | announced (o : Nat) (order : List N)
  | fetch (o : Nat)
  | extend (o : Nat)
  | drop (n : N)
  | finalise (o : Nat)
  | notify (o : Nat)

variable {N : Type}

/-- The object is on its way from its construction to the end of `register`. -/
def Part.Joining (ts : Part N) : Prop := match ts.phase with
  | .announce _ | .fetch _ | .got _ => True
  | .idle => ts.constructed = true
  | .deleting _ | .dead => False

section

variable [DecidableEq N]

namespace Cluster

variable (c : Cluster N)

def init : Cluster N := ⟨[], fun _ => none⟩

def update (o : Nat) (f : Part N → Part N) : Cluster N := { c with parts := c.parts.modify o f }

/-- The handler of `register_partition` at `m`. -/
def registerPartition (m nid : N) : Cluster N := match c.held m with
  | none => c -- dont_know
  | some o => c.update o fun ts => { ts with partitions := ts.partitions ++ [nid] }

/-- The handler of `get_partitions` at `m`; `none` is `dont_know`. -/
def getPartitions (m : N) : Option (List N) :=
  (c.held m).bind fun o => c.parts[o]?.map fun ts => ts.partitions ++ [m]

/-- The handler of `deleted_partition` at `m`; `none` when `index` raises. -/
def deletedPartition (m nid : N) : Option (Cluster N) := match c.held m with
  | none => some c -- dont_know
  | some o => c.parts[o]?.bind fun ts =>
    if nid ∈ ts.partitions then
      some (c.update o fun ts => { ts with partitions := ts.partitions.erase nid })
    else none

/-- A step of object `o`. -/
def onPart (o : Nat) (f : Part N → Option (Cluster N)) : Option (Cluster N) :=
  c.parts[o]?.bind f

/-- `local_ts` at `n`. -/
def setHeld (n : N) (o : Option Nat) : Cluster N :=
  { c with held := fun m => if m = n then o else c.held m }

def setPhase (o : Nat) (phase : Phase N) : Cluster N :=
  c.update o fun ts => { ts with phase := phase }

def next : Event N → Option (Cluster N)
  -- `TupleSpace.__init__`, called by `newTupleSpace`
  | .create n order =>
    some { c with parts := c.parts ++ [{ node := n, phase := .announce order }] }
  | .install o => c.onPart o fun ts =>
    if ts.constructed then
      some ((c.update o fun ts => { ts with constructed := false }).setHeld ts.node (some o))
    else none
  -- `broadcast_message(register_partition, self._id, server.node_id)`
  | .announce o => c.onPart o fun ts => match ts.phase with
    | .announce (m :: todo) =>
      some ((c.registerPartition m ts.node).setPhase o (.announce todo))
    | _ => none
  | .announced o order => c.onPart o fun ts => match ts.phase with
    | .announce [] => some (c.setPhase o (.fetch order))
    | _ => none
  -- `broadcast_firstreplyonly(get_partitions, self._id)`
  | .fetch o => c.onPart o fun ts => match ts.phase with
    | .fetch [] => some (c.setPhase o .idle)
    | .fetch (m :: todo) => some (c.setPhase o (match c.getPartitions m with
      | none => .fetch todo
      | some ps => .got ps))
    | _ => none
  | .extend o => c.onPart o fun ts => match ts.phase with
    | .got ps => some (c.update o fun ts => { ts with
        partitions := ts.partitions ++ ps.filter (· ≠ ts.node), phase := .idle })
    | _ => none
  -- `del self.ts[ts._id]` in `garbage`
  | .drop n => if (c.held n).isSome then some (c.setHeld n none) else none
  -- `__del__`, when neither the container nor the thread has the object
  | .finalise o => c.onPart o fun ts =>
    if ts.phase = .idle ∧ ts.constructed = false ∧ c.held ts.node ≠ some o then
      some (c.setPhase o (.deleting ts.partitions))
    else none
  | .notify o => c.onPart o fun ts => match ts.phase with
    | .deleting [] => some (c.setPhase o .dead)
    | .deleting (m :: todo) =>
      if m = ts.node then some (c.setPhase o .dead) -- `sendMessageToNode` asserts
      else match c.deletedPartition m ts.node with
        | some c' => some (c'.setPhase o (.deleting todo))
        | none => some (c.setPhase o .dead) -- and nobody answers
    | _ => none

/-- No `register` and no `__del__` has anything left to do. -/
def Quiescent : Prop :=
  ∀ o ts, c.parts[o]? = some ts →
    ts.phase = .dead ∨ ts.phase = .idle ∧ ts.constructed = false ∧ c.held ts.node = some o

/-- Every holder has every other holder once, and nothing else. -/
def Agree : Prop :=
  ∀ n o ts, c.held n = some o → c.parts[o]? = some ts →
    ts.partitions.Nodup ∧ ∀ m, m ∈ ts.partitions ↔ m ≠ n ∧ (c.held m).isSome

end Cluster

/-- A broadcast visits every other node of `nodes` once. -/
def Event.Proper (nodes : List N) (c : Cluster N) : Event N → Prop
  | .create n order => n ∈ nodes ∧ order.Perm (nodes.erase n)
  | .announced o order => ∀ ts ∈ c.parts[o]?, order.Perm (nodes.erase ts.node)
  | _ => True

/-- A node joins while nobody joins or leaves, and leaves while nobody joins. -/
def Event.Apart (c : Cluster N) : Event N → Prop
  | .create n _ => c.held n = none ∧ c.Quiescent
  | .drop _ => ∀ ts ∈ c.parts, ¬ ts.Joining
  | _ => True

instance (c : Cluster N) : Decidable c.Quiescent :=
  decidable_of_iff (∀ o, o < c.parts.length → ∀ ts ∈ c.parts[o]?,
      ts.phase = .dead ∨ ts.phase = .idle ∧ ts.constructed = false ∧ c.held ts.node = some o)
    ⟨fun h o ts ho => h o (List.getElem?_eq_some_iff.1 ho).1 ts ho, fun h o _ ts ho => h o ts ho⟩

instance (ts : Part N) : Decidable ts.Joining := by
  unfold Part.Joining
  cases ts.phase <;> infer_instance

instance (nodes : List N) (c : Cluster N) (e : Event N) : Decidable (e.Proper nodes c) := by
  cases e <;> unfold Event.Proper <;> infer_instance

instance (c : Cluster N) (e : Event N) : Decidable (e.Apart c) := by
  cases e <;> unfold Event.Apart <;> infer_instance

end

/-! ## The invariant -/

/-- The object has been or will be in the list at `m`: it has announced itself there, and
has not yet taken it back. -/
def Part.Listed (held : N → Option Nat) (o : Nat) (ts : Part N) (m : N) : Prop := match ts.phase with
  | .announce todo => m ∉ todo
  | .fetch _ | .got _ => True
  | .idle => ts.constructed = true ∨ held ts.node = some o ∨ m ∈ ts.partitions
  | .deleting todo => m ∈ todo
  | .dead => False

/-- The list is that of the holders other than `n`. -/
def Exact (held : N → Option Nat) (n : N) (ps : List N) : Prop :=
  ps.Nodup ∧ ∀ m, m ∈ ps ↔ m ≠ n ∧ (held m).isSome

/-- Whom an object that leaves will tell. -/
def Part.targets (ts : Part N) : List N := match ts.phase with
  | .deleting todo => todo
  | .dead => []
  | _ => ts.partitions

def Part.Settled (held : N → Option Nat) (o : Nat) (ts : Part N) : Prop :=
  ts.phase = .idle ∧ ts.constructed = false ∧ held ts.node = some o

/-- An object of `m` has been or will be in the list at `x`. -/
def Cluster.Due (c : Cluster N) (m x : N) : Prop :=
  ∃ (i : Nat) (q : Part N), c.parts[i]? = some q ∧ q.node = m ∧ q.Listed c.held i x

variable {c : Cluster N} {o : Nat} {ts : Part N}

theorem Part.Settled.listed (h : ts.Settled c.held o) (m : N) : ts.Listed c.held o m := by
  unfold Part.Listed
  rw [h.1]
  exact .inr (.inl h.2.2)

theorem Part.Settled.live (h : ts.Settled c.held o) : ts.phase ≠ .dead := by
  rw [h.1]
  exact nofun

theorem Part.Settled.not_joining (h : ts.Settled c.held o) : ¬ ts.Joining := by
  unfold Part.Joining
  rw [h.1, h.2.1]
  exact Bool.false_ne_true

theorem Part.Listed.live {held : N → Option Nat} {m : N} (h : ts.Listed held o m) :
    ts.phase ≠ .dead := by
  intro hd
  unfold Part.Listed at h
  rw [hd] at h
  exact h

theorem Part.Joining.live (h : ts.Joining) : ts.phase ≠ .dead := by
  intro hd
  unfold Part.Joining at h
  rw [hd] at h
  exact h

@[simp] theorem Cluster.update_held (i : Nat) (f : Part N → Part N) :
    (c.update i f).held = c.held := rfl

theorem Cluster.update_self (f : Part N → Part N) (ho : c.parts[o]? = some ts) :
    (c.update o f).parts[o]? = some (f ts) := by
  simp [Cluster.update, ho]

theorem Cluster.update_ne (f : Part N → Part N) {i : Nat} (hi : i ≠ o) :
    (c.update o f).parts[i]? = c.parts[i]? := by
  simp [Cluster.update, Ne.symm hi]

theorem Cluster.onPart_eq_some {c' : Cluster N} {f : Part N → Option (Cluster N)} :
    c.onPart o f = some c' ↔ ∃ ts, c.parts[o]? = some ts ∧ f ts = some c' :=
  Option.bind_eq_some_iff

theorem not_settled_self (ho : c.parts[o]? = some ts) (hns : ¬ ts.Settled c.held o) {i : Nat}
    {q : Part N} (hq : c.parts[i]? = some q) (hs : q.Settled c.held i) : i ≠ o := by
  rintro rfl
  rw [ho] at hq
  cases hq
  exact hns hs

/-- Where everybody but `o` is settled, one has to list the holders. -/
theorem due_iff_held (hheld : ∀ n i, c.held n = some i → ∃ q : Part N, c.parts[i]? = some q ∧
      q.node = n ∧ q.phase ≠ .dead)
    (halone : ∀ (i : Nat) (q : Part N), c.parts[i]? = some q → i ≠ o →
      q.phase = .dead ∨ q.Settled c.held i)
    (ho : c.parts[o]? = some ts) {m : N} (hm : m ≠ ts.node) (x : N) :
    c.Due m x ↔ (c.held m).isSome := by
  have hne : ∀ (i : Nat) (q : Part N), c.parts[i]? = some q → q.node = m → i ≠ o := by
    rintro i q hq hn rfl
    rw [ho] at hq
    cases hq
    exact hm hn.symm
  constructor
  · rintro ⟨i, q, hq, hn, hl⟩
    rcases halone i q hq (hne i q hq hn) with hd | hset
    · exact absurd hd hl.live
    · rw [← hn, hset.2.2]
      rfl
  · intro hs
    obtain ⟨i, hi⟩ := Option.isSome_iff_exists.1 hs
    obtain ⟨q, hq, hn, hlive⟩ := hheld m i hi
    rcases halone i q hq (hne i q hq hn) with hd | hset
    · exact absurd hd hlive
    · exact ⟨i, q, hq, hn, hset.listed x⟩

theorem Exact.congr {held held' : N → Option Nat} {n : N} {ps : List N}
    (hoff : ∀ m, m ≠ n → held' m = held m) (h : Exact held n ps) : Exact held' n ps := by
  refine ⟨h.1, fun m => (h.2 m).trans (and_congr_right fun hm => ?_)⟩
  rw [hoff m hm]

variable [DecidableEq N]

/-- What an object that joins knows so far. -/
def Part.Newcomer (held : N → Option Nat) (ts : Part N) : Prop := match ts.phase with
  | .announce todo => ts.partitions = [] ∧ todo.Nodup ∧ ts.node ∉ todo
  | .fetch todo => ts.partitions = [] ∧ ts.node ∉ todo ∧
      ∀ m, m ≠ ts.node → (held m).isSome → m ∈ todo
  | .got ps => ts.partitions = [] ∧ Exact held ts.node (ps.filter (· ≠ ts.node))
  | _ => Exact held ts.node ts.partitions

theorem Part.Newcomer.congr {held held' : N → Option Nat}
    (hoff : ∀ m, m ≠ ts.node → held' m = held m) (h : ts.Newcomer held) : ts.Newcomer held' := by
  unfold Part.Newcomer at h ⊢
  cases hp : ts.phase <;> simp only [hp] at h ⊢
  case announce => exact h
  case fetch =>
    refine ⟨h.1, h.2.1, fun m hm hs => h.2.2 m hm ?_⟩
    rw [← hoff m hm]
    exact hs
  case got => exact ⟨h.1, h.2.congr hoff⟩
  all_goals exact h.congr hoff

/-- Every node has one object, one at most of them joins, and then nobody leaves. -/
structure Tidy (nodes : List N) (c : Cluster N) : Prop where
  among : ∀ (o : Nat) (ts : Part N), c.parts[o]? = some ts → ts.node ∈ nodes
  held : ∀ n o, c.held n = some o → ∃ ts : Part N, c.parts[o]? = some ts ∧
    ts.node = n ∧ ts.constructed = false ∧ (ts.Joining ∨ ts.phase = .idle)
  one : ∀ (o o' : Nat) (ts ts' : Part N), c.parts[o]? = some ts → c.parts[o']? = some ts' →
    ts.phase ≠ .dead → ts'.phase ≠ .dead → ts.node = ts'.node → o = o'
  alone : ∀ (o o' : Nat) (ts ts' : Part N), c.parts[o]? = some ts → c.parts[o']? = some ts' →
    ts.Joining → o' ≠ o → ts'.phase = .dead ∨ ts'.Settled c.held o'
  joining : ∀ (o : Nat) (ts : Part N), c.parts[o]? = some ts → ts.Joining →
    ts.Newcomer c.held ∧ (ts.constructed = false → c.held ts.node = some o)
  built : ∀ (o : Nat) (ts : Part N), c.parts[o]? = some ts → ts.constructed = true → ts.Joining
  lists : ∀ (o : Nat) (ts : Part N), c.parts[o]? = some ts → ts.Settled c.held o →
    ts.partitions.Nodup ∧ ∀ m, m ∈ ts.partitions ↔ m ≠ ts.node ∧ c.Due m ts.node
  leaving : ∀ (o : Nat) (ts : Part N), c.parts[o]? = some ts → ¬ ts.Joining →
    ¬ ts.Settled c.held o → ts.targets.Nodup ∧ ts.node ∉ ts.targets

variable {nodes : List N}

namespace Tidy

variable (h : Tidy nodes c)
include h

theorem held_part {n : N} (hn : c.held n = some o) :
    ∃ ts : Part N, c.parts[o]? = some ts ∧ ts.node = n ∧ ts.phase ≠ .dead := by
  obtain ⟨ts, ho, hnode, -, hj | hi⟩ := h.held n o hn
  · exact ⟨ts, ho, hnode, hj.live⟩
  · exact ⟨ts, ho, hnode, by rw [hi]; exact nofun⟩

/-- What is held is settled or joins. -/
theorem settled_or_joining (ho : c.parts[o]? = some ts) (hn : c.held ts.node = some o) :
    ts.Settled c.held o ∨ ts.Joining := by
  obtain ⟨q, hq, -, hcon, hj | hi⟩ := h.held _ o hn
  · rw [ho] at hq
    cases hq
    exact .inr hj
  · rw [ho] at hq
    cases hq
    exact .inl ⟨hi, hcon, hn⟩

theorem due_at (ho : c.parts[o]? = some ts) (hlive : ts.phase ≠ .dead) (x : N) :
    c.Due ts.node x ↔ ts.Listed c.held o x := by
  constructor
  · rintro ⟨i, q, hq, hn, hl⟩
    cases h.one i o q ts hq ho hl.live hlive hn
    rw [ho] at hq
    cases hq
    exact hl
  · exact fun hl => ⟨o, ts, ho, rfl, hl⟩

/-- Nobody else joins while `o` is neither dead nor settled. -/
theorem joining_eq (ho : c.parts[o]? = some ts) (hlive : ts.phase ≠ .dead)
    (hns : ¬ ts.Settled c.held o) {i : Nat} {q : Part N} (hq : c.parts[i]? = some q)
    (hj : q.Joining) : i = o := by
  by_cases hi : i = o
  · exact hi
  · rcases h.alone i o q ts hq ho hj (Ne.symm hi) with hd | hs
    · exact absurd hd hlive
    · exact absurd hs hns

end Tidy

/-- What an object may become in a step of its own, which leaves `held` in `local_ts`. -/
structure Moves (held : N → Option Nat) (o : Nat) (ts ts' : Part N) : Prop where
  node : ts'.node = ts.node
  joining : ts'.Joining → ts.Joining ∧ ts'.Newcomer held ∧
    (ts'.constructed = false → held ts.node = some o)
  stays : held ts.node = some o → ts'.constructed = false ∧ (ts'.Joining ∨ ts'.phase = .idle)
  built : ts'.constructed = true → ts'.Joining
  list : ts'.Settled held o → ts.Joining ∧ Exact held ts.node ts'.partitions
  leaving : ¬ ts'.Joining → ¬ ts'.Settled held o → ts'.targets.Nodup ∧ ts'.node ∉ ts'.targets

/-- Object `o` takes such a step, and the settled objects get the lists `told`. -/
structure Turn (c c' : Cluster N) (o : Nat) (ts ts' : Part N) (told : Nat → Part N → List N) :
    Prop extends Moves c'.held o ts ts' where
  before : c.parts[o]? = some ts
  live : ts.phase ≠ .dead
  quiet : ∀ i q, i ≠ o → c.parts[i]? = some q → ¬ q.Joining
  after : c'.parts[o]? = some ts'
  off : ∀ m, m ≠ ts.node → c'.held m = c.held m
  only : ∀ i, c'.held ts.node = some i → i = o
  others : ∀ i, i ≠ o →
    c'.parts[i]? = (c.parts[i]?).map fun q => { q with partitions := told i q }
  tells : ∀ i q, i ≠ o → c.parts[i]? = some q → q.Settled c.held i → (told i q).Nodup ∧
    ∀ x, x ∈ told i q ↔
      if x = ts.node then ts'.Listed c'.held o q.node else x ∈ q.partitions
  same : ∀ i q, i ≠ o → c.parts[i]? = some q → ¬ q.Settled c.held i → told i q = q.partitions

theorem Moves.of_joining {held : N → Option Nat} {ts' : Part N} (hnode : ts'.node = ts.node)
    (hcon : ts'.constructed = ts.constructed) (hj : ts.Joining)
    (hin : ts.constructed = false ↔ held ts.node = some o) (hj' : ts'.Joining)
    (hnew : ts'.Newcomer held) (hidle : ts'.phase ≠ .idle) : Moves held o ts ts' where
  node := hnode
  joining _ := ⟨hj, hnew, fun hc => hin.1 (hcon.symm.trans hc)⟩
  stays hh := ⟨hcon.trans (hin.2 hh), .inl hj'⟩
  built _ := hj'
  list hs := absurd hs.1 hidle
  leaving hn := absurd hj' hn

/-- The end of `register`. -/
theorem Moves.of_registered {held : N → Option Nat} (hj : ts.Joining)
    (hin : ts.constructed = false ↔ held ts.node = some o) {ps : List N}
    (hps : Exact held ts.node ps) : Moves held o ts { ts with partitions := ps, phase := .idle } where
  node := rfl
  joining _ := ⟨hj, hps, hin.1⟩
  stays hh := ⟨hin.2 hh, .inr rfl⟩
  built hc := hc
  list _ := ⟨hj, hps⟩
  leaving hn hs := by
    have hc : ts.constructed = false := Bool.eq_false_iff.2 hn
    exact absurd ⟨rfl, hc, hin.1 hc⟩ hs

theorem Moves.of_leaving {held : N → Option Nat} (hc : ts.constructed = false)
    (hout : held ts.node ≠ some o) {phase : Phase N}
    (hphase : ¬ Part.Joining { ts with phase := phase })
    (ht : Part.targets { ts with phase := phase } |>.Nodup)
    (hn : ts.node ∉ Part.targets { ts with phase := phase }) :
    Moves held o ts { ts with phase := phase } where
  node := rfl
  joining h := absurd h hphase
  stays h := absurd h hout
  built h := absurd (hc.symm.trans h) Bool.false_ne_true
  list h := absurd h.2.2 hout
  leaving _ _ := ⟨ht, hn⟩

namespace Turn

variable {c' : Cluster N} {ts' q' : Part N} {told : Nat → Part N → List N} {i : Nat} {q : Part N}
variable (t : Turn c c' o ts ts' told)
include t

theorem back (hi : i ≠ o) (hq' : c'.parts[i]? = some q') :
    ∃ q, c.parts[i]? = some q ∧ q' = { q with partitions := told i q } := by
  rw [t.others i hi] at hq'
  obtain ⟨q, hq, rfl⟩ := Option.map_eq_some_iff.1 hq'
  exact ⟨q, hq, rfl⟩

theorem forth (hi : i ≠ o) (hq : c.parts[i]? = some q) :
    c'.parts[i]? = some { q with partitions := told i q } := by
  rw [t.others i hi, hq, Option.map_some]

theorem at_self (hq' : c'.parts[o]? = some q') : q' = ts' := by
  rw [t.after] at hq'
  cases hq'
  rfl

theorem before_self (hq : c.parts[o]? = some q) : q = ts := by
  rw [t.before] at hq
  cases hq
  rfl

theorem joining_eq (hq' : c'.parts[i]? = some q') (hj : q'.Joining) : i = o := by
  by_cases hi : i = o
  · exact hi
  · obtain ⟨q, hq, rfl⟩ := t.back hi hq'
    exact absurd hj (t.quiet i q hi hq)

variable (h : Tidy nodes c)
include h

theorem node_ne (hi : i ≠ o) (hq : c.parts[i]? = some q) (hl : q.phase ≠ .dead) :
    q.node ≠ ts.node :=
  fun hn => hi (h.one i o q ts hq t.before hl t.live hn)

/-- What `local_ts` says about the others stays. -/
theorem settled_iff (hi : i ≠ o) (hq : c.parts[i]? = some q) :
    q.Settled c'.held i ↔ q.Settled c.held i := by
  unfold Part.Settled
  refine and_congr_right fun hidle => and_congr_right fun _ => ?_
  rw [t.off _ (t.node_ne h hi hq (by rw [hidle]; exact nofun))]

/-- A new list changes nothing in whom an object is listed by. -/
theorem listed_iff (hi : i ≠ o) (hq : c.parts[i]? = some q) (y : N) :
    Part.Listed c'.held i { q with partitions := told i q } y ↔ q.Listed c.held i y := by
  by_cases hs : q.Settled c.held i
  · have hs' : Part.Settled c'.held i { q with partitions := told i q } :=
      (t.settled_iff h hi hq).2 hs
    exact iff_of_true (hs'.listed y) (hs.listed y)
  · rw [t.same i q hi hq hs]
    by_cases hd : q.phase = .dead
    · exact iff_of_false (fun hl => hl.live hd) fun hl => hl.live hd
    · unfold Part.Listed
      rw [t.off _ (t.node_ne h hi hq hd)]

theorem due_iff (x y : N) :
    c'.Due x y ↔ if x = ts.node then ts'.Listed c'.held o y else c.Due x y := by
  unfold Cluster.Due
  by_cases hx : x = ts.node
  · rw [if_pos hx]
    constructor
    · rintro ⟨i, q', hq', hn, hl⟩
      by_cases hi : i = o
      · subst hi
        exact t.at_self hq' ▸ hl
      · obtain ⟨q, hq, rfl⟩ := t.back hi hq'
        exact absurd (hn.trans hx) (t.node_ne (q := q) h hi hq hl.live)
    · exact fun hl => ⟨o, ts', t.after, t.node.trans hx.symm, hl⟩
  · rw [if_neg hx]
    constructor
    · rintro ⟨i, q', hq', hn, hl⟩
      by_cases hi : i = o
      · subst hi
        cases t.at_self hq'
        exact absurd (hn.symm.trans t.node) hx
      · obtain ⟨q, hq, rfl⟩ := t.back hi hq'
        exact ⟨i, q, hq, hn, (t.listed_iff h hi hq y).1 hl⟩
    · rintro ⟨i, q, hq, hn, hl⟩
      have hi : i ≠ o := by
        rintro rfl
        exact hx ((t.before_self hq) ▸ hn.symm)
      exact ⟨i, _, t.forth hi hq, hn, (t.listed_iff h hi hq y).2 hl⟩

theorem tidy_held {n : N} (hn : c'.held n = some i) : ∃ q : Part N,
    c'.parts[i]? = some q ∧ q.node = n ∧ q.constructed = false ∧ (q.Joining ∨ q.phase = .idle) := by
  by_cases hnn : n = ts.node
  · rw [hnn] at hn
    cases t.only i hn
    exact ⟨ts', t.after, t.node.trans hnn.symm, t.stays hn⟩
  · rw [t.off n hnn] at hn
    obtain ⟨q, hq, hqn, hrest⟩ := h.held n i hn
    have hi : i ≠ o := by
      rintro rfl
      exact hnn (t.before_self hq ▸ hqn.symm)
    exact ⟨_, t.forth hi hq, hqn, hrest⟩

theorem alone (hj : ts.Joining) (hi : i ≠ o) (hq' : c'.parts[i]? = some q') :
    q'.phase = .dead ∨ q'.Settled c'.held i := by
  obtain ⟨q, hq, rfl⟩ := t.back hi hq'
  rcases h.alone o i ts q t.before hq hj hi with hd | hs
  · exact .inl hd
  · exact .inr ((t.settled_iff h hi hq).2 hs)

/-- The list of the object that joined is right when it is done. -/
theorem tidy_list (hs : ts'.Settled c'.held o) : ts'.partitions.Nodup ∧
    ∀ x, x ∈ ts'.partitions ↔ x ≠ ts'.node ∧ c'.Due x ts'.node := by
  obtain ⟨hj, hnd, hmem⟩ := t.list hs
  refine ⟨hnd, fun x => ?_⟩
  rw [hmem, t.node]
  refine and_congr_right fun hx => ?_
  refine (due_iff_held (fun n k hk => ?_) (fun i q hq hi => t.alone h hj hi hq) t.after
    (t.node ▸ hx) _).symm
  obtain ⟨r, hr, hrn, -, hrj | hri⟩ := t.tidy_held h hk
  · exact ⟨r, hr, hrn, hrj.live⟩
  · exact ⟨r, hr, hrn, by rw [hri]; exact nofun⟩

theorem tidy : Tidy nodes c' where
  among i q hq := by
    by_cases hi : i = o
    · subst hi
      rw [t.at_self hq, t.node]
      exact h.among i ts t.before
    · obtain ⟨r, hr, rfl⟩ := t.back hi hq
      exact h.among i r hr
  held _ _ hn := t.tidy_held h hn
  one i j q q' hq hq' hl hl' hn := by
    by_cases hi : i = o
    · subst hi
      cases t.at_self hq
      by_cases hj : j = i
      · exact hj.symm
      · obtain ⟨r, hr, rfl⟩ := t.back hj hq'
        exact absurd (hn.symm.trans t.node) (t.node_ne (q := r) h hj hr hl')
    · obtain ⟨r, hr, rfl⟩ := t.back hi hq
      by_cases hj : j = o
      · subst hj
        cases t.at_self hq'
        exact absurd (hn.trans t.node) (t.node_ne (q := r) h hi hr hl)
      · obtain ⟨r', hr', rfl⟩ := t.back hj hq'
        exact h.one i j r r' hr hr' hl hl' hn
  alone i j q q' hq hq' hj hij := by
    cases t.joining_eq hq hj
    cases t.at_self hq
    exact t.alone h (t.joining hj).1 hij hq'
  joining i q hq hj := by
    cases t.joining_eq hq hj
    cases t.at_self hq
    rw [t.node]
    exact (t.joining hj).2
  built i q hq hc := by
    by_cases hi : i = o
    · subst hi
      cases t.at_self hq
      exact t.built hc
    · obtain ⟨r, hr, rfl⟩ := t.back hi hq
      exact h.built i r hr hc
  lists i q hq hs := by
    by_cases hi : i = o
    · subst hi
      cases t.at_self hq
      exact t.tidy_list h hs
    · obtain ⟨r, hr, rfl⟩ := t.back hi hq
      have hrs : r.Settled c.held i := (t.settled_iff h hi hr).1 hs
      obtain ⟨hnd, hmem⟩ := t.tells i r hi hr hrs
      refine ⟨hnd, fun x => ?_⟩
      show x ∈ told i r ↔ x ≠ r.node ∧ c'.Due x r.node
      rw [hmem, t.due_iff h]
      by_cases hx : x = ts.node
      · rw [if_pos hx, if_pos hx]
        exact (and_iff_right (hx ▸ (t.node_ne h hi hr hrs.live).symm)).symm
      · rw [if_neg hx, if_neg hx]
        exact (h.lists i r hr hrs).2 x
  leaving i q hq hj hs := by
    by_cases hi : i = o
    · subst hi
      cases t.at_self hq
      exact t.leaving hj hs
    · obtain ⟨r, hr, rfl⟩ := t.back hi hq
      have hrs : ¬ r.Settled c.held i := fun hs' => hs ((t.settled_iff h hi hr).2 hs')
      rw [show ({ r with partitions := told i r } : Part N) = r by rw [t.same i r hi hr hrs]]
      exact h.leaving i r hr hj hrs

end Turn

/-! ## The steps -/

namespace Tidy

variable (h : Tidy nodes c)
include h

/-- A settled object lists `o` as `o` says. -/
theorem mem_partitions_iff (ho : c.parts[o]? = some ts) (hlive : ts.phase ≠ .dead) {i : Nat}
    {q : Part N} (hi : i ≠ o) (hq : c.parts[i]? = some q) (hs : q.Settled c.held i) :
    ts.node ∈ q.partitions ↔ ts.Listed c.held o q.node := by
  rw [(h.lists i q hq hs).2, h.due_at ho hlive]
  exact and_iff_right fun hn => hi (h.one i o q ts hq ho hs.live hlive hn.symm)

/-- What is in `local_ts` of its node is the object that is alive there. -/
theorem held_self (ho : c.parts[o]? = some ts) (hlive : ts.phase ≠ .dead) {i : Nat}
    (hi : c.held ts.node = some i) : i = o := by
  obtain ⟨q, hq, hn, hl⟩ := h.held_part hi
  exact h.one i o q ts hq ho hl hlive hn

theorem installed_iff (ho : c.parts[o]? = some ts) (hj : ts.Joining) :
    ts.constructed = false ↔ c.held ts.node = some o := by
  refine ⟨(h.joining o ts ho hj).2, fun hh => ?_⟩
  obtain ⟨q, hq, -, hc, -⟩ := h.held _ o hh
  rw [ho] at hq
  cases hq
  exact hc

/-- A step that changes no list but its own. -/
theorem own (ho : c.parts[o]? = some ts) (hlive : ts.phase ≠ .dead)
    (hns : ¬ ts.Settled c.held o) (f : Part N → Part N) (hm : Moves c.held o ts (f ts))
    (hsame : ∀ (i : Nat) (q : Part N), c.parts[i]? = some q → q.Settled c.held i →
      ((f ts).Listed c.held o q.node ↔ ts.Listed c.held o q.node)) :
    Tidy nodes (c.update o f) :=
  have t : Turn c (c.update o f) o ts (f ts) (fun _ q => q.partitions) :=
    { hm with
      before := ho
      live := hlive
      quiet := fun _ _ hi hq hj => hi (h.joining_eq ho hlive hns hq hj)
      after := Cluster.update_self f ho
      off := fun _ _ => rfl
      only := fun _ hi => h.held_self ho hlive hi
      others := fun i hi => by
        rw [Cluster.update_ne f hi]
        exact Option.map_id'.symm
      tells := fun i q hi hq hs => ⟨(h.lists i q hq hs).1, fun x => by
        by_cases hx : x = ts.node
        · rw [if_pos hx, hx]
          exact (h.mem_partitions_iff ho hlive hi hq hs).trans (hsame i q hq hs).symm
        · rw [if_neg hx]⟩
      same := fun _ _ _ _ _ => rfl }
  t.tidy h

/-- A step that changes the list at one other object. -/
theorem tell (ho : c.parts[o]? = some ts) (hlive : ts.phase ≠ .dead)
    (hns : ¬ ts.Settled c.held o) (f : Part N → Part N) (hm : Moves c.held o ts (f ts))
    {j : Nat} {r : Part N} (hj : c.parts[j]? = some r) (hr : r.Settled c.held j)
    (g : List N → List N) (hnd : (g r.partitions).Nodup)
    (hmem : ∀ x, x ∈ g r.partitions ↔
      if x = ts.node then (f ts).Listed c.held o r.node else x ∈ r.partitions)
    (hsame : ∀ m, m ≠ r.node → ((f ts).Listed c.held o m ↔ ts.Listed c.held o m)) :
    Tidy nodes ((c.update j fun q => { q with partitions := g q.partitions }).update o f) := by
  have hjo : j ≠ o := not_settled_self ho hns hj hr
  suffices t : Turn c ((c.update j fun q => { q with partitions := g q.partitions }).update o f) o
      ts (f ts) (fun i q => if i = j then g q.partitions else q.partitions) from t.tidy h
  refine
    { hm with
      before := ho
      live := hlive
      quiet := fun _ _ hi hq hj => hi (h.joining_eq ho hlive hns hq hj)
      after := Cluster.update_self f (by rw [Cluster.update_ne _ (Ne.symm hjo), ho])
      off := fun _ _ => rfl
      only := fun _ hi => h.held_self ho hlive hi
      others := fun i hi => ?_
      tells := fun i q hi hq hs => ?_
      same := fun i q hi hq hs => ?_ }
  · rw [Cluster.update_ne f hi]
    by_cases hij : i = j
    · subst hij
      rw [Cluster.update_self _ hj, hj, Option.map_some, if_pos rfl]
    · rw [Cluster.update_ne _ hij]
      simp only [if_neg hij]
      exact Option.map_id'.symm
  · by_cases hij : i = j
    · subst hij
      rw [hj] at hq
      cases hq
      simp only [if_pos]
      exact ⟨hnd, hmem⟩
    · have hne : q.node ≠ r.node := fun hn => hij (h.one i j q r hq hj hs.live hr.live hn)
      simp only [if_neg hij]
      refine ⟨(h.lists i q hq hs).1, fun x => ?_⟩
      by_cases hx : x = ts.node
      · rw [if_pos hx, hx]
        exact (h.mem_partitions_iff ho hlive hi hq hs).trans (hsame _ hne).symm
      · rw [if_neg hx]
  · by_cases hij : i = j
    · subst hij
      rw [hj] at hq
      cases hq
      exact absurd hr hs
    · exact if_neg hij

theorem announce (ho : c.parts[o]? = some ts) {m : N} {todo : List N}
    (hph : ts.phase = .announce (m :: todo)) :
    Tidy nodes ((c.registerPartition m ts.node).setPhase o (.announce todo)) := by
  have hj : ts.Joining := by
    unfold Part.Joining
    rw [hph]
    trivial
  have hns : ¬ ts.Settled c.held o := fun hs => hs.not_joining hj
  obtain ⟨hnew, -⟩ := h.joining o ts ho hj
  unfold Part.Newcomer at hnew
  rw [hph] at hnew
  obtain ⟨hnil, hnd, hnot⟩ := hnew
  rw [List.nodup_cons] at hnd
  have hm : Moves c.held o ts { ts with phase := .announce todo } :=
    .of_joining rfl rfl hj (h.installed_iff ho hj) trivial
      ⟨hnil, hnd.2, fun hx => hnot (List.mem_cons_of_mem _ hx)⟩ nofun
  have hlisted : ∀ x, x ≠ m → (Part.Listed c.held o { ts with phase := .announce todo } x ↔
      ts.Listed c.held o x) := by
    intro x hx
    show x ∉ todo ↔ _
    unfold Part.Listed
    rw [hph]
    simp [hx]
  unfold Cluster.registerPartition
  cases hh : c.held m with
  | none =>
    refine h.own ho hj.live hns _ hm fun i q hq hs => hlisted _ ?_
    intro hn
    rw [← hn, hs.2.2] at hh
    cases hh
  | some j =>
    obtain ⟨r, hr, hrn, hlive⟩ := h.held_part hh
    have hjo : j ≠ o := by
      rintro rfl
      rw [ho] at hr
      cases hr
      exact hnot (hrn ▸ List.mem_cons_self)
    have hrs : r.Settled c.held j :=
      (h.alone o j ts r ho hr hj hjo).resolve_left hlive
    have hout : ts.node ∉ r.partitions := by
      rw [h.mem_partitions_iff ho hj.live hjo hr hrs]
      unfold Part.Listed
      rw [hph, hrn]
      simp
    refine h.tell ho hj.live hns _ hm hr hrs (· ++ [ts.node]) ?_ ?_ fun x hx => hlisted x (hrn ▸ hx)
    · exact List.Nodup.append (h.lists j r hr hrs).1 (List.nodup_singleton _) (by simpa using hout)
    · intro x
      rw [List.mem_append, List.mem_singleton]
      by_cases hx : x = ts.node
      · rw [if_pos hx]
        exact iff_of_true (.inr hx) (hrn ▸ hnd.1)
      · rw [if_neg hx]
        exact or_iff_left hx

theorem announced (hnd : nodes.Nodup) (ho : c.parts[o]? = some ts)
    (hph : ts.phase = .announce []) {order : List N} (hperm : order.Perm (nodes.erase ts.node)) :
    Tidy nodes (c.setPhase o (.fetch order)) := by
  have hj : ts.Joining := by
    unfold Part.Joining
    rw [hph]
    trivial
  obtain ⟨hnew, -⟩ := h.joining o ts ho hj
  unfold Part.Newcomer at hnew
  rw [hph] at hnew
  refine h.own ho hj.live (fun hs => hs.not_joining hj) _
      (.of_joining rfl rfl hj (h.installed_iff ho hj) trivial ?_ nofun)
    fun i q _ _ => ?_
  · refine ⟨hnew.1, fun hx => ?_, fun m hm hs => ?_⟩
    · exact hnd.not_mem_erase (hperm.mem_iff.1 hx)
    · obtain ⟨i, hi⟩ := Option.isSome_iff_exists.1 hs
      obtain ⟨q, hq, rfl, -⟩ := h.held_part hi
      exact hperm.mem_iff.2 ((List.mem_erase_of_ne hm).2 (h.among i q hq))
  · show True ↔ _
    unfold Part.Listed
    rw [hph]
    simp

theorem due_iff (ho : c.parts[o]? = some ts) (hj : ts.Joining) {m : N} (hm : m ≠ ts.node) (x : N) :
    c.Due m x ↔ (c.held m).isSome :=
  due_iff_held (fun _ _ hn => h.held_part hn) (fun i q hq hi => h.alone o i ts q ho hq hj hi) ho hm x

/-- What a holder answers to `get_partitions`. -/
theorem getPartitions_exact (ho : c.parts[o]? = some ts) (hj : ts.Joining) {m : N}
    (hm : m ≠ ts.node) {ps : List N} (hps : c.getPartitions m = some ps) :
    Exact c.held ts.node (ps.filter (· ≠ ts.node)) := by
  obtain ⟨j, hh, hps⟩ := Option.bind_eq_some_iff.1 hps
  obtain ⟨r, hr, rfl⟩ := Option.map_eq_some_iff.1 hps
  obtain ⟨r', hr', hrn, hlive⟩ := h.held_part hh
  rw [hr] at hr'
  cases hr'
  have hjo : j ≠ o := by
    rintro rfl
    rw [ho] at hr
    cases hr
    exact hm hrn.symm
  have hrs : r.Settled c.held j := (h.alone o j ts r ho hr hj hjo).resolve_left hlive
  obtain ⟨hnd, hmem⟩ := h.lists j r hr hrs
  rw [hrn] at hmem
  have hout : m ∉ r.partitions := fun hx => ((hmem m).1 hx).1 rfl
  constructor
  · exact (List.Nodup.append hnd (List.nodup_singleton _) (by simpa using hout)).filter _
  · intro x
    rw [List.mem_filter, List.mem_append, List.mem_singleton, decide_eq_true_eq, and_comm]
    refine and_congr_right fun hx => ?_
    rw [hmem, h.due_iff ho hj hx]
    by_cases hxm : x = m
    · exact iff_of_true (.inr hxm) (by rw [hxm, hh]; rfl)
    · rw [or_iff_left hxm]
      exact and_iff_right hxm

theorem fetch (ho : c.parts[o]? = some ts) {m : N} {todo : List N}
    (hph : ts.phase = .fetch (m :: todo)) :
    Tidy nodes (c.setPhase o (match c.getPartitions m with
      | none => .fetch todo
      | some ps => .got ps)) := by
  have hj : ts.Joining := by
    unfold Part.Joining
    rw [hph]
    trivial
  obtain ⟨hnew, -⟩ := h.joining o ts ho hj
  unfold Part.Newcomer at hnew
  rw [hph] at hnew
  obtain ⟨hnil, hnot, hheld⟩ := hnew
  have hl : ∀ x, ts.Listed c.held o x ↔ True := by
    intro x
    unfold Part.Listed
    rw [hph]
  cases hp : c.getPartitions m with
  | none =>
    refine h.own ho hj.live (fun hs => hs.not_joining hj) _
      (.of_joining rfl rfl hj (h.installed_iff ho hj) trivial ?_ nofun)
      fun i q _ _ => (hl _).symm
    refine ⟨hnil, fun hx => hnot (List.mem_cons_of_mem _ hx), fun x hx hs => ?_⟩
    rcases List.mem_cons.1 (hheld x hx hs) with rfl | hmem
    · -- a holder would have answered
      obtain ⟨j, hh⟩ := Option.isSome_iff_exists.1 hs
      obtain ⟨r, hr, -, -⟩ := h.held_part hh
      unfold Cluster.getPartitions at hp
      rw [hh, Option.bind_some, hr] at hp
      cases hp
    · exact hmem
  | some ps =>
    refine h.own ho hj.live (fun hs => hs.not_joining hj) _
      (.of_joining rfl rfl hj (h.installed_iff ho hj) trivial ?_ nofun)
      fun i q _ _ => (hl _).symm
    exact ⟨hnil, h.getPartitions_exact ho hj (fun hm => hnot (hm ▸ List.mem_cons_self)) hp⟩

/-- `register` ends with a list that is right. -/
theorem registered (ho : c.parts[o]? = some ts) (hj : ts.Joining)
    (hl : ∀ x, ts.Listed c.held o x) {f : Part N → Part N} {ps : List N}
    (hf : f ts = { ts with partitions := ps, phase := .idle })
    (hps : Exact c.held ts.node ps) : Tidy nodes (c.update o f) := by
  have hin := h.installed_iff ho hj
  refine h.own ho hj.live (fun hs => hs.not_joining hj) f (hf ▸ .of_registered hj hin hps)
    fun i q _ _ => iff_of_true ?_ (hl _)
  rw [hf]
  show ts.constructed = true ∨ c.held ts.node = some o ∨ _
  cases hc : ts.constructed with
  | true => exact .inl rfl
  | false => exact .inr (.inl (hin.1 hc))

theorem fetch_nil (ho : c.parts[o]? = some ts) (hph : ts.phase = .fetch []) :
    Tidy nodes (c.setPhase o .idle) := by
  have hj : ts.Joining := by
    unfold Part.Joining
    rw [hph]
    trivial
  obtain ⟨hnew, -⟩ := h.joining o ts ho hj
  unfold Part.Newcomer at hnew
  rw [hph] at hnew
  obtain ⟨hnil, -, hheld⟩ := hnew
  refine h.registered ho hj (fun x => ?_) rfl ?_
  · unfold Part.Listed
    rw [hph]
    trivial
  · rw [hnil]
    refine ⟨List.nodup_nil, fun m => ?_⟩
    constructor
    · exact fun hm => absurd hm List.not_mem_nil
    · exact fun hm => hheld m hm.1 hm.2

theorem extend (ho : c.parts[o]? = some ts) {ps : List N} (hph : ts.phase = .got ps) :
    Tidy nodes (c.update o fun ts => { ts with
      partitions := ts.partitions ++ ps.filter (· ≠ ts.node), phase := .idle }) := by
  have hj : ts.Joining := by
    unfold Part.Joining
    rw [hph]
    trivial
  obtain ⟨hnew, -⟩ := h.joining o ts ho hj
  unfold Part.Newcomer at hnew
  rw [hph] at hnew
  refine h.registered ho hj (fun x => ?_) rfl ?_
  · unfold Part.Listed
    rw [hph]
    trivial
  · rw [hnew.1]
    exact hnew.2

theorem finalise (ho : c.parts[o]? = some ts) (hph : ts.phase = .idle)
    (hc : ts.constructed = false) (hout : c.held ts.node ≠ some o) :
    Tidy nodes (c.setPhase o (.deleting ts.partitions)) := by
  have hj : ¬ ts.Joining := by
    unfold Part.Joining
    rw [hph, hc]
    exact Bool.false_ne_true
  have hns : ¬ ts.Settled c.held o := fun hs => hout hs.2.2
  obtain ⟨hnd, hnot⟩ := h.leaving o ts ho hj hns
  unfold Part.targets at hnd hnot
  rw [hph] at hnd hnot
  refine h.own ho (by rw [hph]; exact nofun) hns _ (.of_leaving hc hout id hnd hnot)
    fun i q _ _ => ?_
  show q.node ∈ ts.partitions ↔ _
  unfold Part.Listed
  rw [hph, hc]
  simp [hout]

/-- An object that has begun to leave. -/
theorem deleting (ho : c.parts[o]? = some ts) {todo : List N} (hph : ts.phase = .deleting todo) :
    ¬ ts.Joining ∧ ¬ ts.Settled c.held o ∧ ts.constructed = false ∧ c.held ts.node ≠ some o ∧
      todo.Nodup ∧ ts.node ∉ todo := by
  have hj : ¬ ts.Joining := by
    unfold Part.Joining
    rw [hph]
    exact id
  have hns : ¬ ts.Settled c.held o := fun hs => by
    have := hs.1
    rw [hph] at this
    cases this
  have hl := h.leaving o ts ho hj hns
  unfold Part.targets at hl
  rw [hph] at hl
  refine ⟨hj, hns, ?_, fun hh => ?_, hl⟩
  · exact Bool.eq_false_iff.2 fun hc => hj (h.built o ts ho hc)
  · exact (h.settled_or_joining ho hh).elim hns hj

theorem notify_nil (ho : c.parts[o]? = some ts) (hph : ts.phase = .deleting []) :
    Tidy nodes (c.setPhase o .dead) := by
  obtain ⟨hj, hns, hc, hout, -⟩ := h.deleting ho hph
  refine h.own ho (by rw [hph]; exact nofun) hns _
    (.of_leaving hc hout id List.nodup_nil List.not_mem_nil) fun i q _ _ => ?_
  show False ↔ _
  unfold Part.Listed
  rw [hph]
  simp

/-- A holder has the node that leaves in its list. -/
theorem notify (ho : c.parts[o]? = some ts) {m : N} {todo : List N}
    (hph : ts.phase = .deleting (m :: todo)) :
    ∃ c', c.deletedPartition m ts.node = some c' ∧ Tidy nodes (c'.setPhase o (.deleting todo)) := by
  obtain ⟨hj, hns, hc, hout, hnd, hnot⟩ := h.deleting ho hph
  have hlive : ts.phase ≠ .dead := by
    rw [hph]
    exact nofun
  rw [List.nodup_cons] at hnd
  have hm : Moves c.held o ts { ts with phase := .deleting todo } :=
    .of_leaving hc hout id hnd.2 fun hx => hnot (List.mem_cons_of_mem _ hx)
  have hlisted : ∀ x, x ≠ m → (Part.Listed c.held o { ts with phase := .deleting todo } x ↔
      ts.Listed c.held o x) := by
    intro x hx
    show x ∈ todo ↔ _
    unfold Part.Listed
    rw [hph]
    simp [hx]
  unfold Cluster.deletedPartition
  cases hh : c.held m with
  | none =>
    refine ⟨c, rfl, h.own ho hlive hns _ hm fun i q hq hs => hlisted _ ?_⟩
    intro hn
    rw [← hn, hs.2.2] at hh
    cases hh
  | some j =>
    obtain ⟨r, hr, hrn, hrlive⟩ := h.held_part hh
    have hjo : j ≠ o := by
      rintro rfl
      rw [ho] at hr
      cases hr
      exact hnot (hrn ▸ List.mem_cons_self)
    have hrs : r.Settled c.held j := by
      rcases h.settled_or_joining hr (hrn ▸ hh) with hrs | hrj
      · exact hrs
      · exact ((h.alone j o r ts hr ho hrj (Ne.symm hjo)).elim hlive hns).elim
    have hin : ts.node ∈ r.partitions := by
      rw [h.mem_partitions_iff ho hlive hjo hr hrs]
      unfold Part.Listed
      rw [hph, hrn]
      exact List.mem_cons_self
    have hrnd := (h.lists j r hr hrs).1
    refine ⟨_, by dsimp only; rw [hr, Option.bind_some, if_pos hin], ?_⟩
    refine h.tell ho hlive hns _ hm hr hrs (List.erase · ts.node) (hrnd.erase _) (fun x => ?_)
      fun x hx => hlisted x (hrn ▸ hx)
    rw [hrnd.mem_erase_iff]
    by_cases hx : x = ts.node
    · rw [if_pos hx]
      exact iff_of_false (fun hx' => hx'.1 hx) (hrn ▸ hnd.1)
    · rw [if_neg hx]
      exact and_iff_right hx

/-- A node joins while everybody is settled. -/
theorem create (hnd : nodes.Nodup) {n : N} (hn : n ∈ nodes) {order : List N}
    (hperm : order.Perm (nodes.erase n)) (hout : c.held n = none) (hq : c.Quiescent) :
    Tidy nodes { c with parts := c.parts ++ [{ node := n, phase := .announce order }] } := by
  have hcases : ∀ (i : Nat) (q : Part N),
      (c.parts ++ [{ node := n, phase := .announce order }])[i]? = some q →
      (c.parts[i]? = some q ∧ (q.phase = .dead ∨ q.Settled c.held i)) ∨
        i = c.parts.length ∧ q = { node := n, phase := .announce order } := by
    intro i q hi
    rcases Nat.lt_trichotomy i c.parts.length with hlt | rfl | hgt
    · rw [List.getElem?_append_left hlt] at hi
      exact .inl ⟨hi, hq i q hi⟩
    · rw [List.getElem?_concat_length] at hi
      cases hi
      exact .inr ⟨rfl, rfl⟩
    · rw [List.getElem?_eq_none (by simp; omega)] at hi
      cases hi
  have hold : ∀ (i : Nat) (q : Part N), c.parts[i]? = some q →
      (c.parts ++ [{ node := n, phase := .announce order }])[i]? = some q := fun i q hi => by
    rw [List.getElem?_append_left (List.getElem?_eq_some_iff.1 hi).1]
    exact hi
  have hnode : ∀ (i : Nat) (q : Part N), q.Settled c.held i → q.node ≠ n := by
    intro i q hs he
    have := hs.2.2
    rw [he, hout] at this
    cases this
  have hnot : ∀ (i : Nat) (q : Part N), q.phase = .dead ∨ q.Settled c.held i → ¬ q.Joining := by
    intro i q hs hj
    exact hs.elim hj.live fun hs => hs.not_joining hj
  refine ⟨fun i q hi => ?_, fun m i hm => ?_, fun i j q r hi hj hl hl' he => ?_,
    fun i j q r hi hj hjoin hne => ?_, fun i q hi hjoin => ?_, fun i q hi hc => ?_,
    fun i q hi hs => ?_, fun i q hi hj hs => ?_⟩
  · rcases hcases i q hi with ⟨hi, -⟩ | ⟨-, rfl⟩
    · exact h.among i q hi
    · exact hn
  · obtain ⟨q, hi, hrest⟩ := h.held m i hm
    exact ⟨q, hold i q hi, hrest⟩
  · rcases hcases i q hi with ⟨hi, hd | hs⟩ | ⟨rfl, rfl⟩
    · exact absurd hd hl
    · rcases hcases j r hj with ⟨hj, -⟩ | ⟨rfl, rfl⟩
      · exact h.one i j q r hi hj hl hl' he
      · exact absurd he (hnode i q hs)
    · rcases hcases j r hj with ⟨hj, hd | hs⟩ | ⟨rfl, -⟩
      · exact absurd hd hl'
      · exact absurd he.symm (hnode j r hs)
      · rfl
  · rcases hcases i q hi with ⟨-, hs⟩ | ⟨rfl, rfl⟩
    · exact absurd hjoin (hnot i q hs)
    · rcases hcases j r hj with ⟨-, hs⟩ | ⟨rfl, -⟩
      · exact hs
      · exact absurd rfl hne
  · rcases hcases i q hi with ⟨-, hs⟩ | ⟨rfl, rfl⟩
    · exact absurd hjoin (hnot i q hs)
    · refine ⟨⟨rfl, hperm.nodup_iff.2 (hnd.erase n), fun hm => ?_⟩, by simp⟩
      exact hnd.not_mem_erase (hperm.mem_iff.1 hm)
  · rcases hcases i q hi with ⟨hi, -⟩ | ⟨-, rfl⟩
    · exact h.built i q hi hc
    · trivial
  · rcases hcases i q hi with ⟨hi, -⟩ | ⟨-, rfl⟩
    · obtain ⟨hps, hmem⟩ := h.lists i q hi hs
      refine ⟨hps, fun m => (hmem m).trans (and_congr_right fun hm => ?_)⟩
      constructor
      · rintro ⟨k, r, hk, hrest⟩
        exact ⟨k, r, hold k r hk, hrest⟩
      · rintro ⟨k, r, hk, hrn, hl⟩
        rcases hcases k r hk with ⟨hk, -⟩ | ⟨-, rfl⟩
        · exact ⟨k, r, hk, hrn, hl⟩
        · -- it has not announced itself to anybody yet
          refine absurd (hperm.mem_iff.2 ?_) hl
          exact (List.mem_erase_of_ne (hnode i q hs)).2 (h.among i q hi)
    · cases hs.1
  · rcases hcases i q hi with ⟨hi, -⟩ | ⟨-, rfl⟩
    · exact h.leaving i q hi hj hs
    · exact absurd trivial hj

theorem install (ho : c.parts[o]? = some ts) (hc : ts.constructed = true) :
    Tidy nodes ((c.update o fun ts => { ts with constructed := false }).setHeld ts.node
      (some o)) := by
  have hj : ts.Joining := h.built o ts ho hc
  have hns : ¬ ts.Settled c.held o := fun hs => hs.not_joining hj
  have hphase : ts.phase = .idle ∨ Part.Joining { ts with constructed := false } := by
    unfold Part.Joining at hj ⊢
    cases hp : ts.phase <;> simp [hp] at hj ⊢
  have hoff : ∀ m, m ≠ ts.node →
      (if m = ts.node then some o else c.held m) = c.held m := fun m hm => if_neg hm
  have hnew := (h.joining o ts ho hj).1.congr hoff
  have hm : Moves (fun m => if m = ts.node then some o else c.held m) o ts
      { ts with constructed := false } :=
    { node := rfl
      joining := fun _ => ⟨hj, hnew, fun _ => if_pos rfl⟩
      stays := fun _ => ⟨rfl, hphase.symm⟩
      built := fun hf => absurd hf Bool.false_ne_true
      list := fun hs => by
        unfold Part.Newcomer at hnew
        rw [hs.1] at hnew
        exact ⟨hj, hnew⟩
      leaving := fun hn hs => absurd ⟨hphase.resolve_right hn, rfl, if_pos rfl⟩ hs }
  have hlisted : ∀ x, ts.Listed c.held o x ↔ Part.Listed
      (fun m => if m = ts.node then some o else c.held m) o { ts with constructed := false } x := by
    intro x
    unfold Part.Listed
    cases ts.phase <;> simp [hc]
  have t : Turn c ((c.update o fun ts => { ts with constructed := false }).setHeld ts.node
      (some o)) o ts { ts with constructed := false } fun _ q => q.partitions :=
    { hm with
      before := ho
      live := hj.live
      quiet := fun _ _ hi hq hj' => hi (h.joining_eq ho hj.live hns hq hj')
      after := Cluster.update_self _ ho
      off := hoff
      only := fun i hi => by
        rw [show (Cluster.setHeld _ ts.node (some o)).held ts.node = some o from if_pos rfl] at hi
        exact (Option.some.inj hi).symm
      others := fun i hi => (Cluster.update_ne _ hi).trans Option.map_id'.symm
      tells := fun i q hi hq hs => ⟨(h.lists i q hq hs).1, fun x => by
        by_cases hx : x = ts.node
        · rw [if_pos hx, hx, h.mem_partitions_iff ho hj.live hi hq hs]
          exact hlisted q.node
        · rw [if_neg hx]⟩
      same := fun _ _ _ _ _ => rfl }
  exact t.tidy h

/-- A node leaves while nobody joins. -/
theorem drop {n : N} (hn : c.held n = some o) (hquiet : ∀ ts ∈ c.parts, ¬ ts.Joining) :
    Tidy nodes (c.setHeld n none) := by
  obtain ⟨ts, ho, rfl, hlive⟩ := h.held_part hn
  have hj : ¬ ts.Joining := hquiet ts (List.mem_of_getElem? ho)
  have hs : ts.Settled c.held o := (h.settled_or_joining ho hn).resolve_right hj
  obtain ⟨hnd, hmem⟩ := h.lists o ts ho hs
  have hnone : (c.setHeld ts.node none).held ts.node = none := if_pos rfl
  have t : Turn c (c.setHeld ts.node none) o ts ts fun _ q => q.partitions :=
    { node := rfl
      joining := fun hj' => absurd hj' hj
      stays := fun hh => by
        rw [hnone] at hh
        cases hh
      built := fun hc => h.built o ts ho hc
      list := fun hs' => by
        have hh := hs'.2.2
        rw [hnone] at hh
        cases hh
      leaving := fun _ _ => by
        unfold Part.targets
        rw [hs.1]
        exact ⟨hnd, fun hx => ((hmem _).1 hx).1 rfl⟩
      before := ho
      live := hlive
      quiet := fun _ q _ hq => hquiet q (List.mem_of_getElem? hq)
      after := ho
      off := fun m hm => if_neg hm
      only := fun i hi => by
        rw [hnone] at hi
        cases hi
      others := fun i _ => Option.map_id'.symm
      tells := fun i q hi hq hqs => ⟨(h.lists i q hq hqs).1, fun x => by
        by_cases hx : x = ts.node
        · have hne : q.node ≠ ts.node := fun hn => hi (h.one i o q ts hq ho hqs.live hlive hn)
          rw [if_pos hx, hx]
          refine iff_of_true ((h.mem_partitions_iff ho hlive hi hq hqs).2 (hs.listed _)) ?_
          unfold Part.Listed
          rw [hs.1]
          exact .inr (.inr ((hmem _).2 ⟨hne, i, q, hq, rfl, hqs.listed _⟩))
        · rw [if_neg hx]⟩
      same := fun _ _ _ _ _ => rfl }
  exact t.tidy h

end Tidy

theorem tidy_init : Tidy nodes (Cluster.init : Cluster N) := by
  refine ⟨?_, ?_, ?_, ?_, ?_, ?_, ?_, ?_⟩ <;> intros <;> simp_all [Cluster.init]

theorem Tidy.next (hnd : nodes.Nodup) (h : Tidy nodes c) {e : Event N} {c' : Cluster N}
    (hp : e.Proper nodes c) (ha : e.Apart c) (hs : c.next e = some c') : Tidy nodes c' := by
  cases e with
  | create n order =>
    cases hs
    exact h.create hnd hp.1 hp.2 ha.1 ha.2
  | install o =>
    obtain ⟨ts, ho, hs⟩ := Cluster.onPart_eq_some.1 hs
    by_cases hc : ts.constructed = true
    · rw [if_pos hc] at hs
      cases hs
      exact h.install ho hc
    · rw [if_neg hc] at hs
      cases hs
  | announce o =>
    obtain ⟨ts, ho, hs⟩ := Cluster.onPart_eq_some.1 hs
    split at hs
    next m todo hph =>
      cases hs
      exact h.announce ho hph
    · cases hs
  | announced o order =>
    obtain ⟨ts, ho, hs⟩ := Cluster.onPart_eq_some.1 hs
    split at hs
    next hph =>
      cases hs
      exact h.announced hnd ho hph (hp ts ho)
    · cases hs
  | fetch o =>
    obtain ⟨ts, ho, hs⟩ := Cluster.onPart_eq_some.1 hs
    split at hs
    next hph =>
      cases hs
      exact h.fetch_nil ho hph
    next m todo hph =>
      cases hs
      exact h.fetch ho hph
    · cases hs
  | extend o =>
    obtain ⟨ts, ho, hs⟩ := Cluster.onPart_eq_some.1 hs
    split at hs
    next ps hph =>
      cases hs
      exact h.extend ho hph
    · cases hs
  | drop n =>
    simp only [Cluster.next] at hs
    by_cases hn : (c.held n).isSome
    · rw [if_pos hn] at hs
      cases hs
      obtain ⟨o, hn⟩ := Option.isSome_iff_exists.1 hn
      exact h.drop hn ha
    · rw [if_neg hn] at hs
      cases hs
  | finalise o =>
    obtain ⟨ts, ho, hs⟩ := Cluster.onPart_eq_some.1 hs
    by_cases hf : ts.phase = .idle ∧ ts.constructed = false ∧ c.held ts.node ≠ some o
    · rw [if_pos hf] at hs
      cases hs
      exact h.finalise ho hf.1 hf.2.1 hf.2.2
    · rw [if_neg hf] at hs
      cases hs
  | notify o =>
    obtain ⟨ts, ho, hs⟩ := Cluster.onPart_eq_some.1 hs
    split at hs
    next hph =>
      cases hs
      exact h.notify_nil ho hph
    next m todo hph =>
      have hm : m ≠ ts.node := fun he => (h.deleting ho hph).2.2.2.2.2 (he ▸ List.mem_cons_self)
      obtain ⟨c₁, hc₁, ht⟩ := h.notify ho hph
      rw [if_neg hm, hc₁] at hs
      cases hs
      exact ht
    · cases hs

theorem Tidy.agree (h : Tidy nodes c) (hq : c.Quiescent) : c.Agree := by
  intro n o ts hn ho
  obtain ⟨q, hoq, rfl, hlive⟩ := h.held_part hn
  rw [ho] at hoq
  cases hoq
  have hs : ts.Settled c.held o := (hq o ts ho).resolve_left hlive
  obtain ⟨hnd, hmem⟩ := h.lists o ts ho hs
  refine ⟨hnd, fun m => (hmem m).trans (and_congr_right fun hm => ?_)⟩
  exact due_iff_held (fun _ _ hk => h.held_part hk) (fun i q hi _ => hq i q hi) ho hm _

/-- The lists agree whenever nothing is under way, in a run where nobody joins while
another node joins or leaves. -/
theorem membership_agrees {nodes : List N} (hnd : nodes.Nodup) {tr : List (Cluster N × Event N)}
    {c : Cluster N}
    (h : Run (fun c e c' => e.Proper nodes c ∧ Cluster.next c e = some c') .init tr c)
    (happart : ∀ x ∈ tr, x.2.Apart x.1) :
    Throughout (fun c => c.Quiescent → c.Agree) tr c := by
  have ht : Throughout (Tidy nodes) tr c := h.throughout (C := fun c e => e.Apart c)
    (fun _ _ _ ht ha hs => ht.next hnd hs.1 ha hs.2) tidy_init happart
  exact ⟨fun x hx hq => (ht.1 x hx).agree hq, fun hq => ht.2.agree hq⟩

/-- Two nodes join one after the other, and the first leaves. -/
def joinLeave : List (Event Nat) :=
  [.create 0 [1], .install 0, .announce 0, .announced 0 [1], .fetch 0, .fetch 0,
    .create 1 [0], .install 1, .announce 1, .announced 1 [0], .fetch 1, .extend 1,
    .drop 0, .finalise 0, .notify 0, .notify 0]

/-- Two nodes join at the same time. -/
def joinBoth : List (Event Nat) :=
  [.create 0 [1], .create 1 [0], .install 0, .install 1, .announce 0, .announce 1,
    .announced 0 [1], .announced 1 [0], .fetch 0, .fetch 1, .extend 0, .extend 1]

theorem membership_agrees_joinLeave :
    ∃ c, exec? Cluster.next .init joinLeave = some c ∧ c.Quiescent ∧ c.held 1 = some 1 ∧
      c.Agree := by
  have hw : (exec? Cluster.next .init joinLeave).any
      (fun c => decide (c.Quiescent ∧ c.held 1 = some 1)) := by decide +kernel
  obtain ⟨c, hexec, hw⟩ := (Option.any_eq_true _ _).1 hw
  obtain ⟨hq, hh⟩ := of_decide_eq_true hw
  obtain ⟨hr, -⟩ := Run.of_trace? (P := fun c e => e.Proper [0, 1] c) (by decide +kernel) hexec
  have hall := membership_agrees (by decide) hr (by decide +kernel)
  exact ⟨c, hexec, hq, hh, hall.2 hq⟩

/-- Each announces itself to the other and then fetches the other's list. -/
theorem membership_duplicated :
    ∃ tr c, Run (fun c e c' => Event.Proper [0, 1] c e ∧ Cluster.next c e = some c') .init tr c ∧
      c.Quiescent ∧ ¬ c.Agree := by
  have hw : (exec? Cluster.next .init joinBoth).any
      (fun c => decide (c.Quiescent ∧ c.held 0 = some 0 ∧
        c.parts[0]?.map Part.partitions = some [1, 1])) := by decide +kernel
  obtain ⟨c, hexec, hw⟩ := (Option.any_eq_true _ _).1 hw
  obtain ⟨hq, hh, hps⟩ := of_decide_eq_true hw
  obtain ⟨hr, -⟩ := Run.of_trace? (P := fun c e => e.Proper [0, 1] c) (by decide +kernel) hexec
  refine ⟨_, c, hr, hq, fun ha => ?_⟩
  obtain ⟨ts, hts, hps⟩ := Option.map_eq_some_iff.1 hps
  have hnd := (ha 0 0 ts hh hts).1
  rw [hps] at hnd
  exact absurd hnd (by decide)

end PyLinda.Membership
