import PyLinda.Lib.Decimal
import PyLinda.Wire.Message

/-!
# Reading a message

`BuildMessage` walks over the document and fills the message from one element after
another. What an element means depends on the type, which `<action>` sets.
-/

namespace PyLinda

open Lib

namespace Message

/-- What `<action>` does to the message: `none` is `exit(-1)`. -/
def gotAction (m : Message) (text : String) : Option Message :=
  match text with
  | "done" => some { m with type := .done }
  | "dont_know" => some { m with type := .dontKnow }
  | "result_string" => some { m with type := .resultString }
  | "result_int" => some { m with type := .resultInt }
  | "result_tuple" => some { m with type := .resultTuple }
  | "out" => some { m with type := .out, w0 := .null, w1 := .null }
  | "in" => some { m with type := .in_, w0 := .null, w1 := .null }
  | "rd" => some { m with type := .rd, w0 := .null, w1 := .null }
  | "inp" => some { m with type := .inp, w0 := .null, w1 := .null }
  | "rdp" => some { m with type := .rdp, w0 := .null, w1 := .null }
  | "collect" => some { m with type := .collect, w0 := .null, w1 := .null, w2 := .null }
  | "copy_collect" => some { m with type := .copyCollect, w0 := .null, w1 := .null, w2 := .null }
  | "unblock" => some { m with type := .unblock }
  | "create_tuplespace" => some { m with type := .createTuplespace }
  | "add_reference" => some { m with type := .addReference }
  | "delete_reference" => some { m with type := .deleteReference }
  | "monitor" => some { m with type := .monitor }
  | "list_ts" => some { m with type := .listTs }
  | "inspect" => some { m with type := .inspect }
  | "get_routes" => some { m with type := .getRoutes }
  | "register_process" => some { m with type := .registerProcess }
  | "register_thread" => some { m with type := .registerThread }
  | "register_type" => some { m with type := .registerType, w0 := .null }
  | "update_type" => some { m with type := .updateType, w0 := .null }
  | "my_name_is" => some { m with type := .myNameIs }
  | "get_node_id" => some { m with type := .getNodeId }
  | "register_partition" => some { m with type := .registerPartition }
  | "get_partitions" => some { m with type := .getPartitions }
  | "deleted_partition" => some { m with type := .deletedPartition }
  | "get_neighbours" => some { m with type := .getNeighbours }
  | "get_connection_details" => some { m with type := .getConnectionDetails }
  | "get_requests" => some { m with type := .getRequests }
  | "tuple_request" => some { m with type := .tupleRequest }
  | "cancel_request" => some { m with type := .cancelRequest }
  | "multiple_in" => some { m with type := .multipleIn }
  | _ => none

/-- What `<ts id="val">` does. -/
def gotTs (m : Message) (val : String) : Message :=
  match m.type with
  | .out | .in_ | .inp | .rd | .rdp => { m with w0 := .ts val }
  | .collect | .copyCollect =>
    match m.w0 with
    | .null => { m with w0 := .ts val }
    | _ => { m with w1 := .ts val }
  | .addReference | .deleteReference | .registerPartition | .deletedPartition =>
    { m with w0 := .str val }
  | .inspect | .registerThread | .getPartitions | .getRequests => { m with w0 := .ts val }
  | .tupleRequest | .cancelRequest | .multipleIn => { m with w0 := .ts val }
  | _ => m

/-- What `<tid>` with the id `val` does. -/
def gotTid (m : Message) (val : Word) : Message :=
  match m.type with
  | .in_ | .inp | .rd | .rdp => { m with w2 := val }
  | _ => m

/-- What `<tuple>` does with its value. -/
def gotTuple (m : Message) (t : Word) : Message :=
  match m.type with
  | .resultTuple => { m with w0 := t }
  | .out | .in_ | .inp | .rd | .rdp => { m with w1 := t }
  | .collect | .copyCollect => { m with w2 := t }
  | .tupleRequest | .cancelRequest | .multipleIn => { m with w1 := t }
  | _ => m

/-- What `<integer>` does with its value. -/
def gotInteger (m : Message) (i : BitVec 32) : Message :=
  match m.type with
  | .resultInt => { m with w0 := .int i }
  | _ => m

/-- What `<string>` does with its text. -/
def gotString (m : Message) (s : String) : Message :=
  match m.type with
  | .resultString | .createTuplespace | .registerThread | .myNameIs | .getConnectionDetails =>
    { m with w0 := .str s }
  | .addReference | .deleteReference | .registerPartition | .deletedPartition =>
    { m with w1 := .str s }
  | .registerType | .updateType =>
    match m.w0 with
    | .null => { m with w0 := .str s }
    | _ => { m with w2 := .str s }
  | _ => m

/-- What `<element>` does with its value. -/
def gotElement (m : Message) (t : Word) : Message :=
  match m.type with
  | .registerType | .updateType => { m with w1 := t }
  | _ => m

/-- What `<msgid>` does. -/
def gotMsgid (m : Message) (props : List (String × String)) : Option Message := do
  let dest ← Xml.getProp props "dest"
  let source ← Xml.getProp props "source"
  let count ← Xml.getProp props "count"
  some { m with msgid := some { dest, source, count := .ofInt 32 (atoi count) } }

variable (c : ValueCodec)

/-- `Minimal_xmlToValue`, which can return `NULL`. -/
def xmlWord (x : Xml) : Word :=
  match c.xmlToValue x with
  | some v => .val v
  | none => .null

/-- An element that is not `<linda>` or `<body>`: `none` where the program crashes or exits. -/
def gotNode (m : Message) (name : String) (props : List (String × String)) (children : List Xml) :
    Option Message :=
  match name with
  | "action" => (Xml.lastText children).bind m.gotAction
  | "ts" => (Xml.getProp props "id").map m.gotTs
  | "tid" => some (m.gotTid (((Xml.getProp props "id").map Word.str).getD .null))
  | "tuple" => some (m.gotTuple (xmlWord c (.node name props children)))
  | "integer" =>
    match c.xmlToValue (.node name props children) with
    | some (.integer i) => some (m.gotInteger (.ofInt 32 i))
    | _ => none
  | "string" =>
    match c.xmlToValue (.node name props children) with
    | some (.string s) => some (m.gotString s)
    | _ => none
  | "element" => some (m.gotElement (xmlWord c (.node name props children)))
  | "msgid" => m.gotMsgid props
  | _ => some m

mutual

/-- `BuildMessage`. -/
def build (m : Message) : Xml → Option Message
  | .text _ => some m
  | .node name props children =>
    if name = "linda" ∨ name = "body" then buildAll m children else m.gotNode c name props children

/-- The loop over the children. -/
def buildAll (m : Message) : List Xml → Option Message
  | [] => some m
  | x :: xs => (build m x).bind fun m' => buildAll m' xs

end

/-- `Message_recv`: the memory of the new message is zero, and zero is `L_DONE`. -/
def read (x : Xml) : Option Message := build c { type := .done } x

end Message

end PyLinda
