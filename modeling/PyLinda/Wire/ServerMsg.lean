import PyLinda.Wire.Python

/-!
# What the server sends

The tuples that go through `LindaPython_send` on a server, and which of them arrive.
-/

namespace PyLinda

open Message

/-- The tuples the server passes to `LindaPython_send`: its requests to other servers
and what it sends on for them, and its replies. -/
inductive ServerMsg where
  | getConnectDetails (node : String)
  | getNeighbours
  | getNodeId
  | myNameIs
  | registerPartition (ts : String)
  | getPartitions (ts : String)
  | getRequests (ts : String)
  | deletedPartition (ts : String)
  | multipleIn (ts : String) (tups : List PyObj)
  | tupleRequest (ts : String) (pattern : List PyObj)
  | cancelRequest (ts : String) (pattern : List PyObj)
  | isDeadlocked (ts : String)
  | collect (ts destTs : String) (template : List PyObj)
  | copyCollect (ts destTs : String) (template : List PyObj)
  | addReference (tsid new : String)
  | requestType (tid : String)
  | forward (action : String) (args : List PyObj)
  | done
  | dontKnow
  | unblock
  | resultString (s : String)
  | resultInt (n : Int)
  | resultTuple (l : List PyObj)

namespace ServerMsg

def action : ServerMsg → String
  | getConnectDetails _ => "GET_CONNECTION_DETAILS"
  | getNeighbours => "GET_NEIGHBOURS"
  | getNodeId => "GET_NODE_ID"
  | myNameIs => "MY_NAME_IS"
  | registerPartition _ => "REGISTER_PARTITION"
  | getPartitions _ => "GET_PARTITIONS"
  | getRequests _ => "GET_REQUESTS"
  | deletedPartition _ => "DELETED_PARTITION"
  | multipleIn _ _ => "MULTIPLE_IN"
  | tupleRequest _ _ => "TUPLE_REQUEST"
  | cancelRequest _ _ => "CANCEL_REQUEST"
  | isDeadlocked _ => "is_deadlocked"
  | collect _ _ _ => "COLLECT"
  | copyCollect _ _ _ => "COPY_COLLECT"
  | addReference _ _ => "ADD_REFERENCE"
  | requestType _ => "REQUEST_TYPE"
  | forward action _ => action
  | done => "DONE"
  | dontKnow => "DONT_KNOW"
  | unblock => "UNBLOCK"
  | resultString _ => "RESULT_STRING"
  | resultInt _ => "RESULT_INT"
  | resultTuple _ => "RESULT_TUPLE"

/-- The arguments; the server's `node_id` is its process id. -/
def args (env : Env) : ServerMsg → List PyObj
  | getConnectDetails node => [.str node]
  | myNameIs => [.str env.processId]
  | registerPartition ts | deletedPartition ts => [.str ts, .str env.processId]
  | getPartitions ts | getRequests ts | isDeadlocked ts => [.str ts]
  | multipleIn ts l | tupleRequest ts l | cancelRequest ts l => [.str ts, .tuple l]
  | collect ts destTs l | copyCollect ts destTs l => [.str ts, .str destTs, .tuple l]
  | addReference tsid new => [.str tsid, .str new]
  | requestType tid => [.str tid]
  | forward _ args => args
  | resultString s => [.str s]
  | resultInt n => [.int n]
  | resultTuple l => [.tuple l]
  | getNeighbours | getNodeId | done | dontKnow | unblock => []

/-- The encoder knows no `is_deadlocked`, takes one argument for `ADD_REFERENCE` and writes
`REQUEST_TYPE` as something the reader does not know. -/
def Ok (env : Env) : ServerMsg → Prop
  | isDeadlocked _ | addReference _ _ | requestType _ => False
  | resultInt n => (BitVec.ofInt 32 n).toInt = n
  | forward action args => Passes env action args
  | _ => True

theorem passes_iff (env : Env) (s : ServerMsg) : Passes env s.action (s.args env) ↔ s.Ok env := by
  cases s <;> simp [Passes, action, args, Ok]

end ServerMsg

variable {c : ValueCodec}

/-- Messages come back, and what the server sends arrives, under exactly these conditions. -/
theorem wire_roundTrip_iff (hc : c.Sound) (env : Env) (i : Option MsgID) :
    (∀ (b : Build) (m : Message), b.message env = some m →
      (∀ v, b.payload = some v → c.RoundTrips v) →
        (Returns c env { m with msgid := i } ↔ b.Kept env)) ∧
    ∀ s : ServerMsg, (∀ x ∈ s.args env, x.toValue.isTuple → c.RoundTrips x.toValue) →
      ((lindaPythonSend env s.action (s.args env)).Arrives c env i s.action (s.args env) ↔
        s.Ok env) :=
  ⟨fun _ _ hm hp => returns_iff hc hm hp i,
    fun s hp => (arrives_iff hc hp).trans (s.passes_iff env)⟩

/-- Strings and integers as libminimal writes them, and the empty tuple. -/
def flatCodec : ValueCodec where
  serialise
    | .string s => [.node "string" [] [.text s]]
    | .integer n => [.node "integer" [("val", n.repr)] []]
    | .tuple [] => [.node "tuple" [] []]
    | _ => []
  xmlToValue
    | .node "string" _ children => some (.string ((Xml.lastText children).getD ""))
    | .node "integer" props _ => (Xml.getProp props "val").map fun val => .integer (Lib.atoi val)
    | .node "tuple" _ [] => some (.tuple [])
    | _ => none

theorem flatCodec_sound : flatCodec.Sound where
  string s := ⟨[], [.text s], rfl, rfl⟩
  int n := by
    refine ⟨[("val", n.toInt.repr)], [], rfl, ?_⟩
    show some (Value.integer (Lib.atoi n.toInt.repr)) = some (.integer n.toInt)
    rw [Lib.atoi_repr]

/-- A message with a tuple, and two that the server sends. -/
theorem wire_roundTrip_some :
    Returns flatCodec ⟨"N0", none⟩
      { type := .out, msgid := some ⟨"N0", "N1", 7⟩, w0 := .ts "UTS", w1 := .val (.tuple []) } ∧
    (lindaPythonSend ⟨"N0", none⟩ "MY_NAME_IS" [.str "N0"]).Arrives flatCodec ⟨"N0", none⟩
      (some ⟨"N0", "N1", 7⟩) "MY_NAME_IS" [.str "N0"] ∧
    (lindaPythonSend ⟨"N0", none⟩ "RESULT_INT" [.int 3]).Arrives flatCodec ⟨"N0", none⟩
      (some ⟨"N0", "N1", 7⟩) "RESULT_INT" [.int 3] := by
  have h := wire_roundTrip_iff flatCodec_sound ⟨"N0", none⟩ (some ⟨"N0", "N1", 7⟩)
  refine ⟨(h.1 (.out "UTS" (.tuple [])) _ rfl fun v hv => ?_).2 rfl,
    (h.2 .myNameIs ?_).2 trivial, (h.2 (.resultInt 3) ?_).2 rfl⟩
  · cases hv
    exact ⟨[], [], rfl, rfl⟩
  · simp [ServerMsg.args, PyObj.toValue, Value.isTuple]
  · simp [ServerMsg.args, PyObj.toValue, Value.isTuple]

/-- A request for a type makes the reader exit, and `is_deadlocked` is not sent at all. -/
theorem wire_roundTrip_fails : ∃ (c : ValueCodec) (env : Env), c.Sound ∧
    (∃ m, (Build.requestType "T0").message env = some m ∧ read c (getString c env m) = none ∧
      ¬ Returns c env m) ∧
    lindaPythonSend env "is_deadlocked" [.str "UTS"] = .raised .systemError ∧
    ¬ (lindaPythonSend env "is_deadlocked" [.str "UTS"]).Arrives c env none "is_deadlocked"
      [.str "UTS"] := by
  refine ⟨flatCodec, ⟨"N0", none⟩, flatCodec_sound, ⟨_, rfl, ?_, not_returns_of_exit rfl⟩, rfl,
    not_arrives_raised _⟩
  rw [read_getString]
  rfl

end PyLinda
