import PyLinda.Net.Connection

/-!
# The verdict of all partitions

`isDeadLocked` asks the other partitions when its own verdict is that there is a
deadlock. The message never leaves the node.
-/

namespace PyLinda

/-- The `is_deadlocked` handler: `verdict` is what `isLocallyDeadlocked` returns, `none`
where the tuplespace does not exist. -/
def isDeadlockedHandler (verdict : Option Bool) : PyObj := .bool (verdict.getD true)

namespace Net

variable (net : Net) (i : MsgID)

/-- `x is not True`. -/
def isNotTrue : PyObj → Bool
  | .bool true => false
  | _ => true

/-- `TupleSpace.isDeadLocked` of the tuplespace `id`, where `isLocallyDeadlocked` returns
`verdict`. -/
def isDeadLocked (id : String) (verdict : Bool) (partitions : List String) : CallResult Bool :=
  if verdict then
    match net.broadcastToNodes i [.str "is_deadlocked", .str id] partitions with
    | .returned d => .returned ((d.filter fun x => isNotTrue (.tuple x)).length = 0)
    | .raised e => .raised e
    | .waits => .waits
  else .returned false

/-- The encoder does not know the message. -/
theorem connectionSend_is_deadlocked (env : Env) (id : String) :
    connectionSend env (.tuple [.str "is_deadlocked", .str id]) = .raised .systemError := rfl

theorem sendMessageToNode_is_deadlocked (n id : String) :
    ∃ e, net.sendMessageToNode i n [.str "is_deadlocked", .str id] = .raised e := by
  unfold sendMessageToNode
  by_cases h : n = net.env.processId
  · exact ⟨.assertionError, by rw [if_pos h]⟩
  · rw [if_neg h]
    cases net.peer n with
    | none => exact ⟨.assertionError, rfl⟩
    | some p => exact ⟨.systemError, by simp [arriving, connectionSend_is_deadlocked]⟩

/-- So a broadcast to anybody raises. -/
theorem broadcastToNodes_is_deadlocked (id : String) {nodes : List String} (h : nodes ≠ []) :
    ∃ e, net.broadcastToNodes i [.str "is_deadlocked", .str id] nodes = .raised e := by
  cases nodes with
  | nil => exact absurd rfl h
  | cons n nodes =>
    unfold broadcastToNodes
    by_cases hn : isNodeId n = true
    · obtain ⟨e, he⟩ := net.sendMessageToNode_is_deadlocked i n id
      exact ⟨e, by rw [if_pos hn, he]⟩
    · exact ⟨.assertionError, by rw [if_neg hn]⟩

end Net

/-- A partition on another node: what `isLocallyDeadlocked` returns there, `none` where the
tuplespace is gone. -/
structure Partition where
  env : Env
  verdict : Option Bool

def Partition.peer (p : Partition) : Peer := ⟨p.env, fun _ => isDeadlockedHandler p.verdict⟩

/-- A node that is connected to the partitions. -/
def Net.ofPartitions (codec : ValueCodec) (env : Env) (parts : String → Option Partition) : Net :=
  ⟨codec, env, fun n => (parts n).map Partition.peer⟩

/-- `isDeadLocked` returns the conjunction of the verdicts exactly when there is nobody to
ask, or no need to. -/
theorem isDeadLocked_iff (codec : ValueCodec) (env : Env) (parts : String → Option Partition)
    (i : MsgID) (id : String) (verdict : Bool) (partitions : List String) :
    (Net.ofPartitions codec env parts).isDeadLocked i id verdict partitions =
        .returned (verdict && partitions.all fun n => ((parts n).bind Partition.verdict).getD true) ↔
      verdict = false ∨ partitions = [] := by
  cases verdict with
  | false => simp [Net.isDeadLocked]
  | true =>
    by_cases hp : partitions = []
    · subst hp
      simp [Net.isDeadLocked, Net.broadcastToNodes]
    · obtain ⟨e, he⟩ := (Net.ofPartitions codec env parts).broadcastToNodes_is_deadlocked i id hp
      simp [Net.isDeadLocked, he, hp]

/-- Two partitions that are both deadlocked: the one that asks gets a `SystemError`. -/
theorem isDeadLocked_raises : ∃ (codec : ValueCodec) (env : Env) (parts : String → Option Partition)
    (i : MsgID) (n : String), isNodeId n = true ∧ (parts n).bind Partition.verdict = some true ∧
      (Net.ofPartitions codec env parts).isDeadLocked i "S" true [n] = .raised .systemError ∧
      ¬ (Net.ofPartitions codec env parts).isDeadLocked i "S" true [n] =
        .returned (true && [n].all fun n => ((parts n).bind Partition.verdict).getD true) := by
  refine ⟨⟨fun _ => [], fun _ => none⟩, ⟨"N0", none⟩, fun _ => some ⟨⟨"N1", none⟩, some true⟩,
    ⟨"N1", "N0", 0⟩, "N1234567890123456789012345678901234567890", by decide, rfl, by rfl, fun h => ?_⟩
  cases h

end PyLinda
