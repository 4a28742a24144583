import PyLinda.Value

/-!
# Messages and their XML

A `Message` is a type, an optional id and a union of at most three words.
`getString` makes an XML document of it (`Message_getString`), `BuildMessage` fills a
message from one. The document is the tree: its text and back is libxml's work. How a
value is written is a parameter.
-/

namespace PyLinda

/-- An XML node; `props` are the attributes. -/
inductive Xml where
  | node (name : String) (props : List (String × String)) (children : List Xml)
  | text (content : String)

/-- `xmlGetProp`. -/
def Xml.getProp (props : List (String × String)) (name : String) : Option String :=
  props.lookup name

/-- The content of the last text node. -/
def Xml.lastText (children : List Xml) : Option String :=
  children.foldl (fun found x => match x with
    | .text s => some s
    | .node _ _ _ => found) none

/-- The element `Minimal_serialiseValue` makes for a value. -/
def Value.tag : Value → String
  | .nil => "nil"
  | .boolean b => if b then "true" else "false"
  | .integer _ => "integer"
  | .uinteger _ => "uinteger"
  | .float _ => "float"
  | .string _ => "string"
  | .type _ => "typeobj"
  | .tsref _ => "tsid"
  | .tuple _ => "tuple"
  | .sum _ _ => "sum"
  | .function _ => "function"
  | .pointer _ => "ptr"

/-- `Minimal_serialiseXML`, the nodes it adds, and `Minimal_xmlToValue`. -/
structure ValueCodec where
  serialise : Value → List Xml
  xmlToValue : Xml → Option Value

/-- The value is written as one element and read back from it. -/
def ValueCodec.RoundTrips (c : ValueCodec) (v : Value) : Prop :=
  ∃ props children, c.serialise v = [.node v.tag props children] ∧
    c.xmlToValue (.node v.tag props children) = some v

/-- Strings and C ints are. -/
structure ValueCodec.Sound (c : ValueCodec) : Prop where
  string : ∀ s, c.RoundTrips (.string s)
  int : ∀ i : BitVec 32, c.RoundTrips (.integer i.toInt)

structure MsgID where
  dest : String
  source : String
  count : BitVec 32
  deriving DecidableEq, Repr

/-- `<msgid>`. -/
def MsgID.node (i : MsgID) : Xml :=
  .node "msgid" [("source", i.source), ("dest", i.dest), ("count", i.count.toInt.repr)] []

inductive MsgType where
  | done
  | dontKnow
  | resultString
  | resultInt
  | resultTuple
  | resultType
  | unblock
  | out
  | in_
  | rd
  | inp
  | rdp
  | collect
  | copyCollect
  | createTuplespace
  | addReference
  | deleteReference
  | monitor
  | listTs
  | inspect
  | getRoutes
  | registerProcess
  | registerThread
  | registerType
  | updateType
  | requestType
  | myNameIs
  | getNodeId
  | registerPartition
  | getPartitions
  | deletedPartition
  | getRequests
  | getNeighbours
  | getConnectionDetails
  | tupleRequest
  | cancelRequest
  | multipleIn
  deriving DecidableEq, Repr

/-- A word of the union. A tuplespace value that came with a message is kept apart
from the string of its id. -/
inductive Word where
  | null
  | int (i : BitVec 32)
  | str (s : String)
  | ts (id : String)
  | val (v : Value)

/-- The members of the union start with `w0`. -/
structure Message where
  type : MsgType
  msgid : Option MsgID := none
  w0 : Word := .null
  w1 : Word := .null
  w2 : Word := .null

/-- The words that a message of the type uses. -/
def MsgType.width : MsgType → Nat
  | done | dontKnow | unblock | monitor | listTs | getRoutes | registerProcess | getNodeId
  | getNeighbours => 0
  | resultString | resultInt | resultTuple | createTuplespace | inspect | registerThread
  | myNameIs | getConnectionDetails | getPartitions | getRequests => 1
  | out | addReference | deleteReference | registerPartition | deletedPartition | tupleRequest
  | cancelRequest | multipleIn => 2
  | in_ | rd | inp | rdp | collect | copyCollect | resultType | registerType | updateType
  | requestType => 3

/-- The fields of a message. -/
def Message.fields (m : Message) : List Word := [m.w0, m.w1, m.w2].take m.type.width

/-- Type, id and fields are those of `m`. -/
structure Message.Same (m m' : Message) : Prop where
  type : m'.type = m.type
  msgid : m'.msgid = m.msgid
  fields : m'.fields = m.fields

/-! ## The constructors -/

/-- `Linda_process_id`, which a server sets to its node id, and the `thread_id` of the
thread, which a server never sets. -/
structure Env where
  processId : String
  threadId : Option String

/-- A call of one of the `Message_*` constructors. A tuplespace argument is its id. -/
inductive Build where
  | done
  | dontKnow
  | resultString (text : String)
  | resultInt (i : BitVec 32)
  | resultTuple (t : Value)
  | resultType (t : Value)
  | out (ts : String) (t : Value)
  | in_ (ts : String) (t : Value)
  | rd (ts : String) (t : Value)
  | inp (ts : String) (t : Value)
  | rdp (ts : String) (t : Value)
  | collect (ts1 ts2 : String) (t : Value)
  | copyCollect (ts1 ts2 : String) (t : Value)
  | unblock
  | createTuplespace
  | addReference (ts : String)
  | addReference2 (ts id : String)
  | deleteReference (ts : String)
  | monitor
  | listTs
  | inspect (ts : String)
  | getRoutes
  | registerProcess
  | registerThread
  | registerType (type : Value)
  | updateType (typeId : String) (type : Value)
  | requestType (typeId : String)
  | myNameIs (name : String)
  | getNodeId
  | registerPartition (ts ref : String)
  | getPartitions (ts : String)
  | deletedPartition (ts ref : String)
  | getRequests (ts : String)
  | getNeighbours
  | getConnectionDetails (id : String)
  | tupleRequest (ts : String) (t : Value)
  | cancelRequest (ts : String) (t : Value)
  | multipleIn (ts : String) (t : Value)

/-- `rd`, `in` and their kin copy the id of the thread. -/
def Env.read (env : Env) (type : MsgType) (ts : String) (t : Value) : Option Message :=
  env.threadId.map fun tid => { type, w0 := .ts ts, w1 := .val t, w2 := .str tid }

/-- What the call returns: `none` where it returns `NULL` or copies the id of a
thread without one. -/
def Build.message (env : Env) : Build → Option Message
  | done => some { type := .done }
  | dontKnow => some { type := .dontKnow }
  | resultString text => some { type := .resultString, w0 := .str text }
  | resultInt i => some { type := .resultInt, w0 := .int i }
  | resultTuple t => if t.isTuple then some { type := .resultTuple, w0 := .val t } else none
  | resultType t => some { type := .resultType, w1 := .val t }
  | out ts t => some { type := .out, w0 := .ts ts, w1 := .val t }
  | in_ ts t => env.read .in_ ts t
  | rd ts t => env.read .rd ts t
  | inp ts t => env.read .inp ts t
  | rdp ts t => env.read .rdp ts t
  | collect ts1 ts2 t => some { type := .collect, w0 := .ts ts1, w1 := .ts ts2, w2 := .val t }
  | copyCollect ts1 ts2 t =>
    some { type := .copyCollect, w0 := .ts ts1, w1 := .ts ts2, w2 := .val t }
  | unblock => some { type := .unblock }
  | createTuplespace => env.threadId.map fun tid => { type := .createTuplespace, w0 := .str tid }
  | addReference ts =>
    env.threadId.map fun tid => { type := .addReference, w0 := .str ts, w1 := .str tid }
  | addReference2 ts id => some { type := .addReference, w0 := .str ts, w1 := .str id }
  | deleteReference ts =>
    env.threadId.map fun tid => { type := .deleteReference, w0 := .str ts, w1 := .str tid }
  | monitor => some { type := .monitor }
  | listTs => some { type := .listTs }
  | inspect ts => some { type := .inspect, w0 := .str ts }
  | getRoutes => some { type := .getRoutes }
  | registerProcess => some { type := .registerProcess }
  | registerThread => some { type := .registerThread, w0 := .str env.processId }
  | registerType type => some { type := .registerType, w1 := .val type }
  | updateType typeId type => some { type := .updateType, w0 := .str typeId, w1 := .val type }
  | requestType typeId => some { type := .requestType, w0 := .str typeId }
  | myNameIs name => some { type := .myNameIs, w0 := .str name }
  | getNodeId => some { type := .getNodeId }
  | registerPartition ts ref => some { type := .registerPartition, w0 := .str ts, w1 := .str ref }
  | getPartitions ts => some { type := .getPartitions, w0 := .str ts }
  | deletedPartition ts ref => some { type := .deletedPartition, w0 := .str ts, w1 := .str ref }
  | getRequests ts => some { type := .getRequests, w0 := .str ts }
  | getNeighbours => some { type := .getNeighbours }
  | getConnectionDetails id => some { type := .getConnectionDetails, w0 := .str id }
  | tupleRequest ts t => some { type := .tupleRequest, w0 := .ts ts, w1 := .val t }
  | cancelRequest ts t => some { type := .cancelRequest, w0 := .ts ts, w1 := .val t }
  | multipleIn ts t => some { type := .multipleIn, w0 := .ts ts, w1 := .val t }

/-- The values the call hands over. -/
def Build.payload : Build → Option Value
  | resultTuple t | resultType t | out _ t | in_ _ t | rd _ t | inp _ t | rdp _ t | collect _ _ t
  | copyCollect _ _ t | registerType t | updateType _ t | tupleRequest _ t | cancelRequest _ t
  | multipleIn _ t => some t
  | _ => none

/-! ## `Message_getString` -/

namespace Message

variable (c : ValueCodec) (env : Env)

/-- `<action>`. -/
def action (s : String) : Xml := .node "action" [] [.text s]

/-- An element with an `id`: `<ts>` or `<tid>`. -/
def idNode (name : String) : Word → Xml
  | .str s | .ts s => .node name [("id", s)] []
  | _ => .node name [] []

def string (s : String) : List Xml := c.serialise (.string s)

/-- A string of the message as a value. -/
def strNode : Word → List Xml
  | .str s | .ts s => string c s
  | _ => []

/-- A value of the message. -/
def valNode : Word → List Xml
  | .val v => c.serialise v
  | _ => []

/-- The elements behind the message id. -/
def body (m : Message) : List Xml :=
  match m.type with
  | .done => [action "done"]
  | .dontKnow => [action "dont_know"]
  | .resultString => action "result_string" :: strNode c m.w0
  | .resultInt => action "result_int" :: match m.w0 with
    | .int i => c.serialise (.integer i.toInt)
    | _ => []
  | .resultTuple => action "result_tuple" :: valNode c m.w0
  | .unblock => [action "unblock"]
  | .out => [action "out", idNode "ts" m.w0] ++ valNode c m.w1
  | .in_ => [action "in", idNode "ts" m.w0] ++ valNode c m.w1 ++ [idNode "tid" m.w2]
  | .rd => [action "rd", idNode "ts" m.w0] ++ valNode c m.w1 ++ [idNode "tid" m.w2]
  | .inp => [action "inp", idNode "ts" m.w0] ++ valNode c m.w1 ++ [idNode "tid" m.w2]
  | .rdp => [action "rdp", idNode "ts" m.w0] ++ valNode c m.w1 ++ [idNode "tid" m.w2]
  | .collect => [action "collect", idNode "ts" m.w0, idNode "ts" m.w1] ++ valNode c m.w2
  | .copyCollect => [action "copy_collect", idNode "ts" m.w0, idNode "ts" m.w1] ++ valNode c m.w2
  | .createTuplespace => action "create_tuplespace" :: strNode c m.w0
  | .addReference => [action "add_reference", idNode "ts" m.w0] ++ strNode c m.w1
  | .deleteReference => [action "delete_reference", idNode "ts" m.w0] ++ strNode c m.w1
  | .monitor => [action "monitor"]
  | .listTs => [action "list_ts"]
  | .inspect => [action "inspect", idNode "ts" m.w0]
  | .getRoutes => [action "get_routes"]
  | .registerProcess => [action "register_process"]
  | .registerThread => action "register_thread" :: string c env.processId
  | .registerType =>
    [action "register_type", .node "element" [] (valNode c m.w1)] ++ string c env.processId
  | .updateType =>
    action "update_type" :: strNode c m.w0 ++ [.node "element" [] (valNode c m.w1)] ++
      string c env.processId
  | .resultType => [action "result_type", .node "element" [] (valNode c m.w1)]
  | .requestType => action "result_type" :: strNode c m.w0
  | .getNodeId => [action "get_node_id"]
  | .myNameIs => action "my_name_is" :: string c env.processId
  | .registerPartition => [action "register_partition", idNode "ts" m.w0] ++ strNode c m.w1
  | .getPartitions => [action "get_partitions", idNode "ts" m.w0]
  | .deletedPartition => [action "deleted_partition", idNode "ts" m.w0] ++ strNode c m.w1
  | .getRequests => [action "get_requests", idNode "ts" m.w0]
  | .getNeighbours => [action "get_neighbours"]
  | .getConnectionDetails => action "get_connection_details" :: strNode c m.w0
  | .tupleRequest => [action "tuple_request", idNode "ts" m.w0] ++ valNode c m.w1
  | .cancelRequest => [action "cancel_request", idNode "ts" m.w0] ++ valNode c m.w1
  | .multipleIn => [action "multiple_in", idNode "ts" m.w0] ++ valNode c m.w1

/-- The document of a message. -/
def getString (m : Message) : Xml :=
  .node "linda" [] ((m.msgid.map MsgID.node).toList ++ m.body c env)

end Message

end PyLinda
