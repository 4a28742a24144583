import PyLinda.Net.Object
import PyLinda.Wire.RoundTrip

/-!
# Messages as Python tuples

`LindaPython_send` makes a message of an action and its arguments, `LindaPython_recv`
makes them of the message that was read. A tuple comes back as a tuple of values, so
what counts is the value an object stands for.
-/

namespace PyLinda

open Message

mutual

/-- `PyO2Value`: a `bool` is an `int`. -/
def PyObj.toValue : PyObj → Value
  | .none => .nil
  | .bool b => .integer (if b then 1 else 0)
  | .int n => .integer n
  | .str s => .string s
  | .tuple l => .tuple (toValues l)
  | .value v => v

/-- The loop of `PyO2Tuple`. -/
def PyObj.toValues : List PyObj → List Value
  | [] => []
  | x :: xs => x.toValue :: toValues xs

end

/-- What `LindaPython_send` does. -/
inductive Sent where
  | sent (m : Message)
  | raised (e : PyExc)
  | crashed

/-- `Message_send` of what the constructor made. -/
def Build.post (env : Env) (b : Build) : Sent :=
  match b.message env with
  | some m => .sent m
  | none => .crashed

section
variable (env : Env)

/-- `PYTHON_TO_MSG_NONE`. -/
def toMsgNone (b : Build) : List PyObj → Sent
  | [] => b.post env
  | _ => .raised .typeError

/-- `PYTHON_TO_MSG_STRING` and `PYTHON_TO_MSG_TS`. -/
def toMsgString (b : String → Build) : List PyObj → Sent
  | [.str s] => (b s).post env
  | _ => .raised .typeError

/-- `REGISTER_PARTITION` and `DELETED_PARTITION`. -/
def toMsgStrings (b : String → String → Build) : List PyObj → Sent
  | [.str s, .str r] => (b s r).post env
  | _ => .raised .typeError

/-- `TUPLE_REQUEST`, `CANCEL_REQUEST` and `MULTIPLE_IN`. -/
def toMsgTuple (b : String → Value → Build) : List PyObj → Sent
  | [.str s, .tuple l] => (b s (.tuple (PyObj.toValues l))).post env
  | _ => .raised .typeError

/-- `COLLECT` and `COPY_COLLECT`. -/
def toMsgCollect (b : String → String → Value → Build) : List PyObj → Sent
  | [.str s, .str r, .tuple l] => (b s r (.tuple (PyObj.toValues l))).post env
  | _ => .raised .typeError

/-- `LindaPython_send`, the id of the message apart. -/
def lindaPythonSend (action : String) (args : List PyObj) : Sent :=
  match action with
  | "DONE" => toMsgNone env .done args
  | "DONT_KNOW" => toMsgNone env .dontKnow args
  | "RESULT_STRING" => toMsgString env .resultString args
  | "RESULT_INT" =>
    match args with
    | [.int n] => (Build.resultInt (.ofInt 32 n)).post env
    | [.bool b] => (Build.resultInt (if b then 1 else 0)).post env
    | _ => .raised .typeError
  | "RESULT_TUPLE" =>
    match args with
    | [.tuple l] => (Build.resultTuple (.tuple (PyObj.toValues l))).post env
    | [.value (.tuple vs)] => (Build.resultTuple (.tuple vs)).post env
    | _ => .raised .typeError
  | "RESULT_TYPE" =>
    match args with
    | [x] => (Build.resultType x.toValue).post env
    | _ => .raised .typeError
  | "CREATE_TUPLESPACE" => toMsgNone env .createTuplespace args
  | "ADD_REFERENCE" => toMsgString env .addReference args
  | "DELETE_REFERENCE" => toMsgString env .deleteReference args
  | "MONITOR" => toMsgNone env .monitor args
  | "LIST_TS" => toMsgNone env .listTs args
  | "INSPECT" => toMsgString env .inspect args
  | "GET_ROUTES" => toMsgNone env .getRoutes args
  | "MY_NAME_IS" => toMsgString env .myNameIs args
  | "GET_NODE_ID" => toMsgNone env .getNodeId args
  | "REGISTER_PARTITION" => toMsgStrings env .registerPartition args
  | "GET_PARTITIONS" => toMsgString env .getPartitions args
  | "DELETED_PARTITION" => toMsgStrings env .deletedPartition args
  | "GET_REQUESTS" => toMsgString env .getRequests args
  | "GET_NEIGHBOURS" => toMsgNone env .getNeighbours args
  | "GET_CONNECTION_DETAILS" => toMsgString env .getConnectionDetails args
  | "COLLECT" => toMsgCollect env .collect args
  | "COPY_COLLECT" => toMsgCollect env .copyCollect args
  | "UNBLOCK" => toMsgNone env .unblock args
  | "TUPLE_REQUEST" => toMsgTuple env .tupleRequest args
  | "CANCEL_REQUEST" => toMsgTuple env .cancelRequest args
  | "MULTIPLE_IN" => toMsgTuple env .multipleIn args
  | "REQUEST_TYPE" => toMsgString env .requestType args
  | _ => .raised .systemError

end

/-! ## `LindaPython_recv` -/

namespace Word

/-- A `char*` for the format `s`: `NULL` is `None`. -/
def pyString : Word → Option PyObj
  | .str s => some (.str s)
  | .null => some .none
  | _ => none

/-- `Minimal_getTupleSpace`. -/
def getTupleSpace : Word → Option PyObj
  | .ts id => some (.str id)
  | _ => none

/-- `Tuple2PyO`. -/
def toTuple : Word → Option PyObj
  | .val (.tuple vs) => some (.tuple (vs.map .value))
  | _ => none

/-- `Value2PyO`. -/
def toPyO : Word → Option PyObj
  | .val v => some (.value v)
  | _ => none

/-- The member `i`. -/
def pyInt : Word → Option PyObj
  | .int i => some (.int i.toInt)
  | _ => none

end Word

/-- The arguments behind the action, `none` where one of them cannot be made. -/
def pyArgs (action : String) (args : List (Option PyObj)) : Option (List PyObj) :=
  (args.mapM id).map (.str action :: ·)

/-- `LindaPython_recv`, the id of the message apart. -/
def lindaPythonRecv (m : Message) : Option (List PyObj) :=
  match m.type with
  | .done => pyArgs "DONE" []
  | .dontKnow => pyArgs "DONT_KNOW" []
  | .resultString => pyArgs "RESULT_STRING" [m.w0.pyString]
  | .resultInt => pyArgs "RESULT_INT" [m.w0.pyInt]
  | .resultTuple => pyArgs "RESULT_TUPLE" [m.w0.toTuple]
  | .out => pyArgs "OUT" [m.w0.getTupleSpace, m.w1.toTuple]
  | .in_ => pyArgs "IN" [m.w0.getTupleSpace, m.w1.toTuple, m.w2.pyString]
  | .rd => pyArgs "RD" [m.w0.getTupleSpace, m.w1.toTuple, m.w2.pyString]
  | .inp => pyArgs "INP" [m.w0.getTupleSpace, m.w1.toTuple, m.w2.pyString]
  | .rdp => pyArgs "RDP" [m.w0.getTupleSpace, m.w1.toTuple, m.w2.pyString]
  | .collect => pyArgs "COLLECT" [m.w0.getTupleSpace, m.w1.getTupleSpace, m.w2.toTuple]
  | .copyCollect => pyArgs "COPY_COLLECT" [m.w0.getTupleSpace, m.w1.getTupleSpace, m.w2.toTuple]
  | .unblock => pyArgs "UNBLOCK" []
  | .createTuplespace => pyArgs "CREATE_TUPLESPACE" [m.w0.pyString]
  | .addReference => pyArgs "ADD_REFERENCE" [m.w0.pyString, m.w1.pyString]
  | .deleteReference => pyArgs "DELETE_REFERENCE" [m.w0.pyString, m.w1.pyString]
  | .monitor => pyArgs "MONITOR" []
  | .listTs => pyArgs "LIST_TS" []
  | .inspect => pyArgs "INSPECT" [m.w0.getTupleSpace]
  | .getRoutes => pyArgs "GET_ROUTES" []
  | .registerProcess => pyArgs "REGISTER_PROCESS" []
  | .registerThread => pyArgs "REGISTER_THREAD" [m.w0.pyString]
  | .registerType => pyArgs "REGISTER_TYPE" [m.w1.toPyO, m.w2.pyString]
  | .updateType => pyArgs "UPDATE_TYPE" [m.w0.pyString, m.w1.toPyO, m.w2.pyString]
  | .requestType => pyArgs "REQUEST_TYPE" [m.w0.pyString]
  | .resultType => pyArgs "RESULT_TYPE" [none] -- a value taken for a Python object
  | .getNodeId => pyArgs "GET_NODE_ID" []
  | .myNameIs => pyArgs "MY_NAME_IS" [m.w0.pyString]
  | .registerPartition => pyArgs "REGISTER_PARTITION" [m.w0.pyString, m.w1.pyString]
  | .getPartitions => pyArgs "GET_PARTITIONS" [m.w0.getTupleSpace]
  | .deletedPartition => pyArgs "DELETED_PARTITION" [m.w0.pyString, m.w1.pyString]
  | .getRequests => pyArgs "GET_REQUESTS" [m.w0.getTupleSpace]
  | .getNeighbours => pyArgs "GET_NEIGHBOURS" []
  | .getConnectionDetails => pyArgs "GET_CONNECTION_DETAILS" [m.w0.pyString]
  | .tupleRequest => pyArgs "TUPLE_REQUEST" [m.w0.getTupleSpace, m.w1.toTuple]
  | .cancelRequest => pyArgs "CANCEL_REQUEST" [m.w0.getTupleSpace, m.w1.toTuple]
  | .multipleIn => pyArgs "MULTIPLE_IN" [m.w0.getTupleSpace, m.w1.toTuple]

/-- What arrives at the other end. -/
def Sent.arriving (c : ValueCodec) (env : Env) (i : Option MsgID) : Sent → Option (List PyObj)
  | .sent m => (read c (getString c env { m with msgid := i })).bind lindaPythonRecv
  | .raised _ | .crashed => none

/-- The action and its arguments arrive as they were. -/
def Sent.Arrives (c : ValueCodec) (env : Env) (i : Option MsgID) (x : Sent) (action : String)
    (args : List PyObj) : Prop :=
  ∃ r, x.arriving c env i = some r ∧
    r.map PyObj.toValue = (PyObj.str action :: args).map PyObj.toValue

/-! ## What arrives -/

/-- The tuples that arrive. -/
def Passes (env : Env) (action : String) (args : List PyObj) : Prop :=
  match action with
  | "DONE" | "DONT_KNOW" | "MONITOR" | "LIST_TS" | "GET_ROUTES" | "GET_NODE_ID" | "GET_NEIGHBOURS"
  | "UNBLOCK" => args = []
  | "RESULT_STRING" | "INSPECT" | "GET_PARTITIONS" | "GET_REQUESTS" | "GET_CONNECTION_DETAILS" =>
    ∃ s, args = [.str s]
  | "MY_NAME_IS" => args = [.str env.processId]
  | "RESULT_INT" =>
    (∃ n, args = [.int n] ∧ (BitVec.ofInt 32 n).toInt = n) ∨ ∃ b, args = [.bool b]
  | "RESULT_TUPLE" => (∃ l, args = [.tuple l]) ∨ ∃ vs, args = [.value (.tuple vs)]
  | "REGISTER_PARTITION" | "DELETED_PARTITION" => ∃ s r, args = [.str s, .str r]
  | "COLLECT" | "COPY_COLLECT" => ∃ s r l, args = [.str s, .str r, .tuple l]
  | "TUPLE_REQUEST" | "CANCEL_REQUEST" | "MULTIPLE_IN" => ∃ s l, args = [.str s, .tuple l]
  | _ => False

variable {c : ValueCodec} {env : Env} {i : Option MsgID} {action : String} {args : List PyObj}

theorem not_arrives_raised (e : PyExc) : ¬ (Sent.raised e).Arrives c env i action args := by
  rintro ⟨r, h, -⟩
  cases h

/-- `LindaPython_recv` looks at the fields of the type only. -/
theorem recv_same {m m' : Message} (h : m.Same m') : lindaPythonRecv m' = lindaPythonRecv m := by
  obtain ⟨ht, -, hf⟩ := h
  unfold lindaPythonRecv
  rw [ht]
  simp only [fields, ht] at hf
  cases hty : m.type <;> simp only [hty, MsgType.width, List.take_succ_cons, List.take_zero,
    List.cons.injEq] at hf ⊢
  all_goals simp [hf]

/-- A message that comes back arrives. -/
theorem arriving_post {b : Build} {m : Message} (hc : c.Sound) (hm : b.message env = some m)
    (hp : ∀ v, b.payload = some v → c.RoundTrips v) (hk : b.Kept env) :
    (b.post env).arriving c env i = lindaPythonRecv m := by
  obtain ⟨m', hread, hs⟩ := (returns_iff hc hm hp i).2 hk
  have hrecv : lindaPythonRecv m' = lindaPythonRecv { m with msgid := i } := recv_same hs
  simp only [Build.post, hm, Sent.arriving, hread, Option.bind_some, hrecv]
  rfl

theorem arriving_plain (hc : c.Sound) (b : Build) {m : Message} (hm : b.message env = some m)
    (hb : b.payload = none) (hk : b.Kept env) :
    (b.post env).arriving c env i = lindaPythonRecv m :=
  arriving_post hc hm (fun v hv => by rw [hb] at hv; cases hv) hk

theorem arriving_tuple (hc : c.Sound) (b : Build) {m : Message} (hm : b.message env = some m)
    {t : Value} (hb : b.payload = some t) (ht : c.RoundTrips t) (hk : b.Kept env) :
    (b.post env).arriving c env i = lindaPythonRecv m :=
  arriving_post hc hm (fun v hv => by rw [hb] at hv; cases hv; exact ht) hk

@[simp] theorem toValues_map_value (vs : List Value) : PyObj.toValues (vs.map .value) = vs := by
  induction vs with
  | nil => rfl
  | cons v vs ih => simp [PyObj.toValues, PyObj.toValue, ih]

/-! ## Families of actions -/

section
variable {i : Option MsgID}

theorem arrives_iff_of_arriving {x : Sent} {r : List PyObj} (h : x.arriving c env i = some r) :
    x.Arrives c env i action args ↔
      r.map PyObj.toValue = (PyObj.str action :: args).map PyObj.toValue := by
  unfold Sent.Arrives
  constructor
  · rintro ⟨r', hr, he⟩
    rw [h] at hr
    cases hr
    exact he
  · exact fun he => ⟨r, h, he⟩

theorem arrives_none_iff {b : Build} (h : (b.post env).arriving c env i = some [.str action]) :
    (toMsgNone env b args).Arrives c env i action args ↔ args = [] := by
  cases args with
  | nil => exact iff_of_true ((arrives_iff_of_arriving h).2 rfl) rfl
  | cons x xs => exact iff_of_false (not_arrives_raised _) (List.cons_ne_nil x xs)

/-- With more or fewer arguments than were sent. -/
theorem not_arrives_none {b : Build} (h : ∀ r, (b.post env).arriving c env i = some r →
    r.length ≠ 1) : ¬ (toMsgNone env b args).Arrives c env i action args := by
  rintro ⟨r, hr, he⟩
  cases args with
  | nil => exact h r hr (by simpa using congrArg List.length he)
  | cons x xs => cases hr

theorem arrives_string_iff {b : String → Build} (g : String → String)
    (h : ∀ s, ((b s).post env).arriving c env i = some [.str action, .str (g s)]) :
    (toMsgString env b args).Arrives c env i action args ↔ ∃ s, args = [.str s] ∧ g s = s := by
  unfold toMsgString
  split
  · rename_i s
    rw [arrives_iff_of_arriving (h s)]
    simp [PyObj.toValue]
  · rename_i hne
    refine iff_of_false (not_arrives_raised _) ?_
    rintro ⟨s, rfl, -⟩
    exact hne s rfl

theorem arrives_string {b : String → Build}
    (h : ∀ s, ((b s).post env).arriving c env i = some [.str action, .str s]) :
    (toMsgString env b args).Arrives c env i action args ↔ ∃ s, args = [.str s] := by
  rw [arrives_string_iff id h]
  simp

theorem not_arrives_string {b : String → Build}
    (h : ∀ s r, ((b s).post env).arriving c env i = some r → r.length ≠ 2) :
    ¬ (toMsgString env b args).Arrives c env i action args := by
  unfold toMsgString
  split
  · rename_i s
    rintro ⟨r, hr, he⟩
    exact h s r hr (by simpa using congrArg List.length he)
  · exact not_arrives_raised _

theorem arrives_strings_iff {b : String → String → Build}
    (h : ∀ s r, ((b s r).post env).arriving c env i = some [.str action, .str s, .str r]) :
    (toMsgStrings env b args).Arrives c env i action args ↔ ∃ s r, args = [.str s, .str r] := by
  unfold toMsgStrings
  split
  · rename_i s r
    exact iff_of_true ((arrives_iff_of_arriving (h s r)).2 rfl) ⟨s, r, rfl⟩
  · rename_i hne
    refine iff_of_false (not_arrives_raised _) ?_
    rintro ⟨s, r, rfl⟩
    exact hne s r rfl

/-- The tuple that arrives. -/
def PyObj.received (l : List PyObj) : PyObj := .tuple ((toValues l).map .value)

@[simp] theorem toValue_received (l : List PyObj) :
    (PyObj.received l).toValue = .tuple (PyObj.toValues l) := by
  simp [PyObj.received, PyObj.toValue]

theorem arrives_tuple_iff {b : String → Value → Build}
    (h : ∀ s l, args = [.str s, .tuple l] → ((b s (.tuple (PyObj.toValues l))).post env).arriving
      c env i = some [.str action, .str s, .received l]) :
    (toMsgTuple env b args).Arrives c env i action args ↔ ∃ s l, args = [.str s, .tuple l] := by
  unfold toMsgTuple
  split
  · rename_i s l
    refine iff_of_true ((arrives_iff_of_arriving (h s l rfl)).2 ?_) ⟨s, l, rfl⟩
    simp [PyObj.toValue]
  · rename_i hne
    refine iff_of_false (not_arrives_raised _) ?_
    rintro ⟨s, l, rfl⟩
    exact hne s l rfl

theorem arrives_collect_iff {b : String → String → Value → Build}
    (h : ∀ s r l, args = [.str s, .str r, .tuple l] →
      ((b s r (.tuple (PyObj.toValues l))).post env).arriving c env i =
        some [.str action, .str s, .str r, .received l]) :
    (toMsgCollect env b args).Arrives c env i action args ↔
      ∃ s r l, args = [.str s, .str r, .tuple l] := by
  unfold toMsgCollect
  split
  · rename_i s r l
    refine iff_of_true ((arrives_iff_of_arriving (h s r l rfl)).2 ?_) ⟨s, r, l, rfl⟩
    simp [PyObj.toValue]
  · rename_i hne
    refine iff_of_false (not_arrives_raised _) ?_
    rintro ⟨s, r, l, rfl⟩
    exact hne s r l rfl

theorem not_arrives_exit {b : Build} {m : Message} (hm : b.message env = some m)
    (h : buildAll c { type := .done, msgid := i } (body c env { m with msgid := i }) = none) :
    ¬ (b.post env).Arrives c env i action args := by
  rintro ⟨r, hr, -⟩
  simp only [Build.post, hm, Sent.arriving] at hr
  rw [read_getString, h] at hr
  cases hr

/-- A tuplespace that was a string in the message is read as a value, and made a string again. -/
theorem arriving_ts {b : Build} {ty : MsgType} {s : String} (text : String)
    (hm : b.message env = some { type := ty, w0 := .str s })
    (hb : body c env { type := ty, msgid := i, w0 := .str s } =
      [Message.action text, idNode "ts" (.str s)])
    (ha : gotAction { type := .done, msgid := i } text = some { type := ty, msgid := i })
    (ht : gotTs { type := ty, msgid := i } s = { type := ty, msgid := i, w0 := .ts s })
    (hr : lindaPythonRecv { type := ty, msgid := i, w0 := .ts s } =
      some [.str action, .str s]) :
    (b.post env).arriving c env i = some [.str action, .str s] := by
  simp only [Build.post, hm, Sent.arriving]
  rw [read_getString, hb, buildAll_action, ha, Option.bind_some, buildAll_ts_str, ht,
    buildAll_nil, Option.bind_some, hr]

end

/-- Every action with any arguments. -/
theorem arrives_iff (hc : c.Sound) (hp : ∀ x ∈ args, x.toValue.isTuple → c.RoundTrips x.toValue) :
    (lindaPythonSend env action args).Arrives c env i action args ↔ Passes env action args := by
  have htup : ∀ l, .tuple l ∈ args → c.RoundTrips (.tuple (PyObj.toValues l)) :=
    fun l hl => hp _ hl rfl
  unfold lindaPythonSend Passes
  split
  · exact arrives_none_iff (arriving_plain hc .done rfl rfl trivial)
  · exact arrives_none_iff (arriving_plain hc .dontKnow rfl rfl trivial)
  · exact arrives_string fun s => arriving_plain hc (.resultString s) rfl rfl trivial
  · -- a C int is 32 bits wide, an int of Python is not
    split
    · rename_i n
      rw [arrives_iff_of_arriving (arriving_plain hc (.resultInt (.ofInt 32 n)) rfl rfl trivial)]
      simp [PyObj.toValue]
    · rename_i b
      refine iff_of_true ?_ (.inr ⟨b, rfl⟩)
      rw [arrives_iff_of_arriving (arriving_plain hc (.resultInt (if b then 1 else 0)) rfl rfl
        trivial)]
      cases b <;> rfl
    · rename_i hint hbool
      refine iff_of_false (not_arrives_raised _) ?_
      rintro (⟨n, rfl, -⟩ | ⟨b, rfl⟩)
      · exact hint n rfl
      · exact hbool b rfl
  · split
    · rename_i l
      refine iff_of_true ?_ (.inl ⟨l, rfl⟩)
      rw [arrives_iff_of_arriving (arriving_tuple hc (.resultTuple (.tuple (PyObj.toValues l))) rfl
        rfl (htup l (by simp)) trivial)]
      simp [PyObj.toValue]
    · rename_i vs
      refine iff_of_true ?_ (.inr ⟨vs, rfl⟩)
      rw [arrives_iff_of_arriving (arriving_tuple hc (.resultTuple (.tuple vs)) rfl rfl
        (hp (.value (.tuple vs)) (by simp) rfl) trivial)]
      simp [PyObj.toValue]
    · rename_i htuple hvalue
      refine iff_of_false (not_arrives_raised _) ?_
      rintro (⟨l, rfl⟩ | ⟨vs, rfl⟩)
      · exact htuple l rfl
      · exact hvalue vs rfl
  · -- the reader exits
    refine iff_of_false ?_ id
    split
    · exact not_arrives_exit rfl rfl
    · exact not_arrives_raised _
  · -- the id of the thread is added, where there is one
    refine iff_of_false (not_arrives_none fun r hr => ?_) id
    rcases htid : env.threadId with _ | tid
    · simp [Build.post, Build.message, htid, Sent.arriving] at hr
    · rw [arriving_plain hc .createTuplespace (by simp only [Build.message, htid]; rfl) rfl
        trivial] at hr
      cases hr
      simp
  · refine iff_of_false (not_arrives_string fun s r hr => ?_) id
    rcases htid : env.threadId with _ | tid
    · simp [Build.post, Build.message, htid, Sent.arriving] at hr
    · rw [arriving_plain hc (.addReference s) (by simp only [Build.message, htid]; rfl) rfl
        trivial] at hr
      cases hr
      simp
  · refine iff_of_false (not_arrives_string fun s r hr => ?_) id
    rcases htid : env.threadId with _ | tid
    · simp [Build.post, Build.message, htid, Sent.arriving] at hr
    · rw [arriving_plain hc (.deleteReference s) (by simp only [Build.message, htid]; rfl) rfl
        trivial] at hr
      cases hr
      simp
  · exact arrives_none_iff (arriving_plain hc .monitor rfl rfl trivial)
  · exact arrives_none_iff (arriving_plain hc .listTs rfl rfl trivial)
  · exact arrives_string fun s => arriving_ts "inspect" rfl rfl rfl rfl rfl
  · exact arrives_none_iff (arriving_plain hc .getRoutes rfl rfl trivial)
  · -- the writer takes its own id
    have h : ∀ s, ((Build.myNameIs s).post env).arriving c env i =
        some [.str "MY_NAME_IS", .str env.processId] := by
      intro s
      simp only [Build.post, Build.message, Sent.arriving]
      rw [read_getString, read_string "my_name_is" hc (.str s) env.processId rfl (fun _ => rfl) rfl]
      rfl
    rw [arrives_string_iff (fun _ => env.processId) h]
    simp
  · exact arrives_none_iff (arriving_plain hc .getNodeId rfl rfl trivial)
  · exact arrives_strings_iff fun s r => arriving_plain hc (.registerPartition s r) rfl rfl trivial
  · exact arrives_string fun s => arriving_ts "get_partitions" rfl rfl rfl rfl rfl
  · exact arrives_strings_iff fun s r => arriving_plain hc (.deletedPartition s r) rfl rfl trivial
  · exact arrives_string fun s => arriving_ts "get_requests" rfl rfl rfl rfl rfl
  · exact arrives_none_iff (arriving_plain hc .getNeighbours rfl rfl trivial)
  · exact arrives_string fun s => arriving_plain hc (.getConnectionDetails s) rfl rfl trivial
  · exact arrives_collect_iff fun s r l hl => arriving_tuple hc
      (.collect s r (.tuple (PyObj.toValues l))) rfl rfl (htup l (by simp [hl])) rfl
  · exact arrives_collect_iff fun s r l hl => arriving_tuple hc
      (.copyCollect s r (.tuple (PyObj.toValues l))) rfl rfl (htup l (by simp [hl])) rfl
  · exact arrives_none_iff (arriving_plain hc .unblock rfl rfl trivial)
  · exact arrives_tuple_iff fun s l hl => arriving_tuple hc
      (.tupleRequest s (.tuple (PyObj.toValues l))) rfl rfl (htup l (by simp [hl])) rfl
  · exact arrives_tuple_iff fun s l hl => arriving_tuple hc
      (.cancelRequest s (.tuple (PyObj.toValues l))) rfl rfl (htup l (by simp [hl])) rfl
  · exact arrives_tuple_iff fun s l hl => arriving_tuple hc
      (.multipleIn s (.tuple (PyObj.toValues l))) rfl rfl (htup l (by simp [hl])) rfl
  · refine iff_of_false ?_ id
    unfold toMsgString
    split
    · exact not_arrives_exit rfl rfl
    · exact not_arrives_raised _
  · exact iff_of_false (not_arrives_raised _) (by split <;> simp_all)

end PyLinda
