import PyLinda.Lib.Simulation
import PyLinda.Partition.Linda
import PyLinda.Server.Frame

/-!
# What a server is to its clients

A list of bags, one for each tuplespace ever made. A client thread sends a message and waits for the
answer. In between, at one moment of its own, each read takes effect on one bag at once; what
`collect` has taken out is put into the destination tuple by tuple.
-/

namespace PyLinda

open Lib

/-- What is still to be done for a message before it is answered. -/
inductive Todo where
  | make (ts : TsId)
  | put (ts : TsId) (tup : Tuple)

/-- What has become of the last message of a thread. -/
inductive Status where
  | idle
  | called (m : Msg)
  /-- It waits at the bag number `i`. -/
  | waiting (i : Nat) (msg : ReadMsg) (template : Tuple)
  | doing (l : List Todo) (r : Reply)

structure Service where
  bags : List (TsId × Bag Tid Tuple Tuple)
  calls : Tid → Status

/-- What an observer of the connections sees. -/
inductive Seen where
  | call (tid : Tid) (m : Msg)
  | answer (tid : Tid) (r : Reply)

/-- What a message comes to that does not read. -/
inductive Accepts : Msg → List Todo → Reply → Prop where
  | createTuplespace {ts : TsId} : Accepts .createTuplespace [.make ts] (.string ts)
  | out {ts : TsId} {tup : Tuple} : Accepts (.out ts tup) [.put ts tup] .done
  | addReference {ts : TsId} {ref : Holder} : Accepts (.addReference ts ref) [] .done
  /-- Nobody knew the tuplespace. -/
  | ensure {ts : TsId} {ref : Holder} : Accepts (.addReference ts ref) [.make ts] .done
  | deleteReference {ts : TsId} : Accepts (.deleteReference ts) [] .done

def ReadMsg.ask (msg : ReadMsg) (template : Tuple) : Ask Tuple := ⟨template, msg.destructive⟩

/-- How an act of the bag number `i`, which is called `ts`, moves the message of `tid` on. -/
inductive Moves (i : Nat) (ts : TsId) (tid : Tid) : Status → Bag.Act Tid Tuple Tuple → Status → Prop where
  | put {tup : Tuple} {l : List Todo} {r : Reply} :
      Moves i ts tid (.doing (.put ts tup :: l) r) (.put tup) (.doing l r)
  | answer {msg : ReadMsg} {p t : Tuple} :
      Moves i ts tid (.called (.read msg ts p)) (.answer tid (msg.ask p) t) (.doing [] (.tuple t))
  | wait {msg : ReadMsg} {p : Tuple} :
      Moves i ts tid (.called (.read msg ts p)) (.wait tid (msg.ask p)) (.waiting i msg p)
  | wake {msg : ReadMsg} {p t : Tuple} :
      Moves i ts tid (.waiting i msg p) (.wake tid (msg.ask p) t) (.doing [] (.tuple t))
  | release {p : Tuple} :
      Moves i ts tid (.waiting i .inp p) (.release tid (ReadMsg.inp.ask p)) (.doing [] .unblock)
  | collect {dest : TsId} {p : Tuple} {l : List Tuple} :
      Moves i ts tid (.called (.collect false ts dest p)) (.collect p l)
        (.doing (l.map (.put dest)) (.int l.length))
  | copy {dest : TsId} {p : Tuple} {l : List Tuple} :
      Moves i ts tid (.called (.collect true ts dest p)) (.copy p l)
        (.doing (l.map (.put dest)) (.int l.length))

namespace Service

def init : Service := ⟨[(.uts, .empty)], fun _ => .idle⟩

def setCall (s : Service) (tid : Tid) (st : Status) : Service :=
  { s with calls := Function.update s.calls tid st }

/-- A tuplespace comes into being. -/
def make (s : Service) (ts : TsId) : Service := { s with bags := s.bags ++ [(ts, .empty)] }

def setBag (s : Service) (i : Nat) (ts : TsId) (b : Bag Tid Tuple Tuple) : Service :=
  { s with bags := s.bags.set i (ts, b) }

inductive Step : Service → Option Seen → Service → Prop where
  | call {s : Service} {tid : Tid} {m : Msg} :
      s.calls tid = .idle → Step s (some (.call tid m)) (s.setCall tid (.called m))
  | accept {s : Service} {tid : Tid} {m : Msg} {l : List Todo} {r : Reply} :
      s.calls tid = .called m → Accepts m l r → Step s none (s.setCall tid (.doing l r))
  | make {s : Service} {tid : Tid} {ts : TsId} {l : List Todo} {r : Reply} :
      s.calls tid = .doing (.make ts :: l) r → Step s none ((s.make ts).setCall tid (.doing l r))
  /-- The destination of a `collect` that nobody knew. -/
  | makeDest {s : Service} {tid : Tid} {copy : Bool} {ts dest : TsId} {p : Tuple} :
      s.calls tid = .called (.collect copy ts dest p) → Step s none (s.make dest)
  | act {s : Service} {tid : Tid} {i : Nat} {ts : TsId} {b b' : Bag Tid Tuple Tuple}
      {a : Bag.Act Tid Tuple Tuple} {st : Status} :
      s.bags[i]? = some (ts, b) → Bag.Step Meets b a b' → Moves i ts tid (s.calls tid) a st →
      Step s none ((s.setBag i ts b').setCall tid st)
  | answer {s : Service} {tid : Tid} {r : Reply} :
      s.calls tid = .doing [] r → Step s (some (.answer tid r)) (s.setCall tid .idle)

end Service

/-! ## The view of a server -/

/-- The bags of a server. -/
def Server.bags (s : Server) : List (TsId × Bag Tid Tuple Tuple) := s.objs.map fun t => (t.id, t.bag)

/-- What a message of the server shows: on a broken connection it is lost. -/
def shown (live : List Tid) : Option (Tid × Reply) → List Seen
  | some m => if m.1 ∈ live then [.answer m.1 m.2] else []
  | none => []

/-- What an event shows. -/
def World.seen (w : World) : Event → List Seen
  | .send tid => (w.clients tid).script.head?.toList.map (.call tid)
  | .act i =>
    match w.pool[i]? with
    | some (a :: _) => shown w.live ((a.exec w.server).bind Effect.sent)
    | _ => []
  | _ => []

/-- Data that is compared by value. -/
def ClientOp.Atoms : ClientOp → Prop
  | .out _ tup => tup.IsAtoms
  | .read _ _ template | .collect _ _ _ template => template.IsTemplate
  | .createTuplespace | .deleteReference _ => True

def Msg.Atoms : Msg → Prop
  | .out _ tup => tup.IsAtoms
  | .read _ _ template | .collect _ _ _ template => template.IsTemplate
  | _ => True

def Event.Atoms : Event → Prop
  | .begin _ op => op.Atoms
  | _ => True

end PyLinda
