import PyLinda.Wire.Python

/-!
# Sending to another node

`Connection.send` and the functions over it. What a call of another node comes to
depends on the encoder here, on the handler there, and on the encoder there.
-/

namespace PyLinda

/-- How a call ends; a thread whose answer never comes waits for ever. -/
inductive CallResult (α : Type) where
  | returned (a : α)
  | raised (e : PyExc)
  | waits

/-- The replacements of `makeMessageXMLSafe`, which come to one for each character. -/
def xmlSafe (s : String) : String :=
  String.ofList (s.toList.flatMap fun ch => match ch with
    | '&' => "&amp;".toList
    | '<' => "&lt;".toList
    | '>' => "&gt;".toList
    | ch => [ch])

mutual

/-- `makeMessageXMLSafe` on an element of a tuple. -/
def PyObj.xmlSafe : PyObj → PyObj
  | .str s => .str (PyLinda.xmlSafe s)
  | .tuple l => .tuple (makeMessageXMLSafe l)
  | x => x

def PyObj.makeMessageXMLSafe : List PyObj → List PyObj
  | [] => []
  | x :: xs => x.xmlSafe :: makeMessageXMLSafe xs

end

/-- `Connection.send`: the message has to be a tuple. -/
def connectionSend (env : Env) : PyObj → Sent
  | .tuple l => match PyObj.makeMessageXMLSafe l with
    | .str action :: args => lindaPythonSend env action args
    | _ => .raised .systemError
  | _ => .raised .assertionError

/-- `isNodeId`. -/
def isNodeId (s : String) : Bool := s.length = 41 && s.front = 'N'

/-- Another node: how it encodes, and what its handler of a message hands to `req.send`. -/
structure Peer where
  env : Env
  handler : List PyObj → PyObj

/-- A node and the others, as far as it has a connection to them. -/
structure Net where
  codec : ValueCodec
  env : Env
  peer : String → Option Peer

namespace Net

variable (net : Net)

/-- What goes over the connection when `env` sends `msg`. -/
def arriving (env : Env) (i : MsgID) (msg : PyObj) : CallResult (List PyObj) :=
  match connectionSend env msg with
  | .raised e => .raised e
  | x => match x.arriving net.codec env (some i) with
    | some r => .returned r
    | none => .waits

/-- `sendMessageToNode(node, None, *args)`, up to the answer. -/
def sendMessageToNode (i : MsgID) (node : String) (args : List PyObj) : CallResult (List PyObj) :=
  if node = net.env.processId then .raised .assertionError
  else match net.peer node with
    | none => .raised .assertionError
    | some p => match net.arriving net.env i (.tuple args) with
      | .returned r => match net.arriving p.env i (p.handler r) with
        | .returned answer => .returned answer
        | _ => .waits -- the handler has died, or its message did
      | x => x

/-- The loop of `broadcast_tonodes(nodes, False, *args)`. -/
def broadcastToNodes (i : MsgID) (args : List PyObj) : List String → CallResult (List (List PyObj))
  | [] => .returned []
  | n :: nodes =>
    if isNodeId n then
      match net.sendMessageToNode i n args with
      | .raised e => .raised e
      | .waits => .waits
      | .returned m => match broadcastToNodes i args nodes with
        | .returned r => match m with
          | .str "DONT_KNOW" :: _ => .returned r
          | _ => .returned (m :: r)
        | x => x
    else .raised .assertionError

end Net

end PyLinda
