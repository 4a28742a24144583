import PyLinda.Wire.MessageRead

/-!
# What comes back of a message

The message read from the document of a message is the same one for most types. It is
not where the reader does not know the action, where the writer takes the id of its
own process in the place of a field, and where a string comes back as a value.
-/

namespace PyLinda

open Lib

namespace Message

variable {c : ValueCodec} {env : Env} {m : Message} {v : Value} {xs : List Xml}

/-- What the element of a value does to the message. -/
def gotValue (m : Message) : Value → Message
  | .tuple vs => m.gotTuple (.val (.tuple vs))
  | .integer i => m.gotInteger (.ofInt 32 i)
  | .string s => m.gotString s
  | _ => m

@[simp] theorem buildAll_nil : buildAll c m [] = some m := rfl

section

attribute [local simp] buildAll build gotNode

theorem buildAll_serialise (hv : c.RoundTrips v) :
    buildAll c m (c.serialise v ++ xs) = buildAll c (m.gotValue v) xs := by
  obtain ⟨props, children, hs, hr⟩ := hv
  rw [hs, List.singleton_append]
  cases v with
  | boolean b => cases b <;> simp [gotValue, Value.tag]
  | tuple vs =>
    simp only [Value.tag] at hr
    simp [gotValue, Value.tag, xmlWord, hr]
  | integer i =>
    simp only [Value.tag] at hr
    simp [gotValue, Value.tag, hr]
  | string s =>
    simp only [Value.tag] at hr
    simp [gotValue, Value.tag, hr]
  | _ => simp [gotValue, Value.tag]

theorem buildAll_action (s : String) :
    buildAll c m (action s :: xs) = (m.gotAction s).bind fun m' => buildAll c m' xs := by
  simp [action, Xml.lastText]

theorem buildAll_ts (s : String) :
    buildAll c m (idNode "ts" (.ts s) :: xs) = buildAll c (m.gotTs s) xs := by
  simp [idNode, Xml.getProp]

theorem buildAll_ts_str (s : String) :
    buildAll c m (idNode "ts" (.str s) :: xs) = buildAll c (m.gotTs s) xs := by
  simp [idNode, Xml.getProp]

theorem buildAll_tid (s : String) :
    buildAll c m (idNode "tid" (.str s) :: xs) = buildAll c (m.gotTid (.str s)) xs := by
  simp [idNode, Xml.getProp]

theorem buildAll_element (children : List Xml) :
    buildAll c m (.node "element" [] children :: xs) =
      buildAll c (m.gotElement (xmlWord c (.node "element" [] children))) xs := by
  simp

/-- The id comes first and changes nothing else. -/
theorem read_getString (m : Message) :
    read c (m.getString c env) = buildAll c { type := .done, msgid := m.msgid } (m.body c env) := by
  rcases hi : m.msgid with _ | i
  · simp [read, getString, hi]
  · have hcount : BitVec.ofInt 32 (atoi i.count.toInt.repr) = i.count := by
      rw [atoi_repr, BitVec.ofInt_toInt]
    simp [read, getString, hi, MsgID.node, gotMsgid, Xml.getProp, List.lookup_cons, hcount]

end

/-- The message comes back. -/
def Returns (c : ValueCodec) (env : Env) (m : Message) : Prop :=
  ∃ m', read c (m.getString c env) = some m' ∧ m.Same m'

theorem returns_iff_of_read {n : Message}
    (h : buildAll c { type := .done, msgid := m.msgid } (m.body c env) = some n) :
    m.Returns c env ↔ m.Same n := by
  unfold Returns
  rw [read_getString, h]
  constructor
  · rintro ⟨m₁, hm, hs⟩
    cases hm
    exact hs
  · exact fun hs => ⟨n, rfl, hs⟩

theorem not_returns_of_exit
    (h : buildAll c { type := .done, msgid := m.msgid } (m.body c env) = none) :
    ¬ m.Returns c env := by
  rintro ⟨m', hm, -⟩
  rw [read_getString, h] at hm
  cases hm

/-! ## Families of messages -/

section
variable {ty : MsgType} {i : Option MsgID} (s : String)

/-- Nothing but an action. -/
theorem returns_bare (hb : body c env { type := ty, msgid := i } = [action s])
    (ha : ∀ m : Message, m.gotAction s = some { m with type := ty }) :
    Returns c env { type := ty, msgid := i } := by
  refine (returns_iff_of_read ?_).2 ⟨rfl, rfl, rfl⟩
  rw [hb, buildAll_action, ha]
  rfl

/-- The string `y` is written where `w` is the field. -/
theorem read_string (hc : c.Sound) (w : Word) (y : String)
    (hb : body c env { type := ty, msgid := i, w0 := w } = action s :: c.serialise (.string y))
    (ha : ∀ m : Message, m.gotAction s = some { m with type := ty })
    (hg : gotString { type := ty, msgid := i } y = { type := ty, msgid := i, w0 := .str y }) :
    buildAll c { type := .done, msgid := i } (body c env { type := ty, msgid := i, w0 := w }) =
      some { type := ty, msgid := i, w0 := .str y } := by
  rw [hb, buildAll_action, ha, Option.bind_some, ← List.append_nil (c.serialise _),
    buildAll_serialise (hc.string y)]
  exact congrArg some hg

theorem returns_string_iff (hc : c.Sound) (x y : String)
    (hb : body c env { type := ty, msgid := i, w0 := .str x } = action s :: c.serialise (.string y))
    (ha : ∀ m : Message, m.gotAction s = some { m with type := ty })
    (hg : gotString { type := ty, msgid := i } y = { type := ty, msgid := i, w0 := .str y })
    (hw : ty.width = 1) : Returns c env { type := ty, msgid := i, w0 := .str x } ↔ x = y := by
  refine (returns_iff_of_read (read_string s hc (.str x) y hb ha hg)).trans ⟨?_, ?_⟩
  · rintro ⟨-, -, h⟩
    simp only [fields, hw, List.take_succ_cons, List.take_zero, List.cons.injEq,
      Word.str.injEq] at h
    exact h.1.symm
  · rintro rfl
    exact ⟨rfl, rfl, rfl⟩

/-- A tuplespace and a string. -/
theorem returns_ref (hc : c.Sound) (ts x : String)
    (hb : body c env { type := ty, msgid := i, w0 := .str ts, w1 := .str x } =
      action s :: idNode "ts" (.str ts) :: c.serialise (.string x))
    (ha : ∀ m : Message, m.gotAction s = some { m with type := ty })
    (ht : gotTs { type := ty, msgid := i } ts = { type := ty, msgid := i, w0 := .str ts })
    (hg : gotString { type := ty, msgid := i, w0 := .str ts } x =
      { type := ty, msgid := i, w0 := .str ts, w1 := .str x }) :
    Returns c env { type := ty, msgid := i, w0 := .str ts, w1 := .str x } := by
  refine (returns_iff_of_read ?_).2 ⟨rfl, rfl, rfl⟩
  rw [hb, buildAll_action, ha, Option.bind_some, buildAll_ts_str, ht,
    ← List.append_nil (c.serialise _), buildAll_serialise (hc.string x)]
  exact congrArg some hg

/-- A tuplespace as a string, which comes back as a value. -/
theorem not_returns_ts (ts : String)
    (hb : body c env { type := ty, msgid := i, w0 := .str ts } = [action s, idNode "ts" (.str ts)])
    (ha : ∀ m : Message, m.gotAction s = some { m with type := ty })
    (ht : gotTs { type := ty, msgid := i } ts = { type := ty, msgid := i, w0 := .ts ts })
    (hw : ty.width = 1) : ¬ Returns c env { type := ty, msgid := i, w0 := .str ts } := by
  rw [returns_iff_of_read (n := { type := ty, msgid := i, w0 := .ts ts })]
  · rintro ⟨-, -, h⟩
    simp [fields, hw] at h
  · rw [hb, buildAll_action, ha, Option.bind_some, buildAll_ts_str, ht]
    rfl

/-- A tuplespace, a value that has to be a tuple, and perhaps a thread. -/
theorem returns_tuple_iff (ts : String) (t : Value) (ht : c.RoundTrips t) (w : Word)
    (tail : List Xml)
    (hb : body c env { type := ty, msgid := i, w0 := .ts ts, w1 := .val t, w2 := w } =
      action s :: idNode "ts" (.ts ts) :: (c.serialise t ++ tail))
    (ha : gotAction { type := .done, msgid := i } s = some { type := ty, msgid := i })
    (hts : gotTs { type := ty, msgid := i } ts = { type := ty, msgid := i, w0 := .ts ts })
    (hv : gotValue { type := ty, msgid := i, w0 := .ts ts } t =
      { type := ty, msgid := i, w0 := .ts ts, w1 := if t.isTuple then .val t else .null })
    (htail : ∀ w', buildAll c { type := ty, msgid := i, w0 := .ts ts, w1 := w' } tail =
      some { type := ty, msgid := i, w0 := .ts ts, w1 := w', w2 := w }) (hw : 2 ≤ ty.width) :
    Returns c env { type := ty, msgid := i, w0 := .ts ts, w1 := .val t, w2 := w } ↔
      t.isTuple := by
  rw [returns_iff_of_read (n := { type := ty, msgid := i, w0 := .ts ts, w2 := w
                                  w1 := if t.isTuple then .val t else .null })]
  · obtain ⟨n, hn⟩ : ∃ n, ty.width = n + 2 := ⟨ty.width - 2, by omega⟩
    constructor
    · rintro ⟨-, -, h⟩
      simp only [fields, hn, List.take_succ_cons, List.cons.injEq, true_and] at h
      by_cases htup : t.isTuple = true
      · exact htup
      · rw [if_neg htup] at h
        cases h.1
    · intro htup
      simp only [htup, if_true]
      exact ⟨rfl, rfl, rfl⟩
  · rw [hb, buildAll_action, ha, Option.bind_some, buildAll_ts, hts, buildAll_serialise ht, hv,
      htail]

/-- Two tuplespaces and a value that has to be a tuple. -/
theorem returns_collect_iff (ts1 ts2 : String) (t : Value) (ht : c.RoundTrips t)
    (hb : body c env { type := ty, msgid := i, w0 := .ts ts1, w1 := .ts ts2, w2 := .val t } =
      action s :: idNode "ts" (.ts ts1) :: idNode "ts" (.ts ts2) :: c.serialise t)
    (ha : gotAction { type := .done, msgid := i } s = some { type := ty, msgid := i })
    (hts : gotTs { type := ty, msgid := i } ts1 = { type := ty, msgid := i, w0 := .ts ts1 })
    (hts' : gotTs { type := ty, msgid := i, w0 := .ts ts1 } ts2 =
      { type := ty, msgid := i, w0 := .ts ts1, w1 := .ts ts2 })
    (hv : gotValue { type := ty, msgid := i, w0 := .ts ts1, w1 := .ts ts2 } t =
      { type := ty, msgid := i, w0 := .ts ts1, w1 := .ts ts2
        w2 := if t.isTuple then .val t else .null }) (hw : ty.width = 3) :
    Returns c env { type := ty, msgid := i, w0 := .ts ts1, w1 := .ts ts2, w2 := .val t } ↔
      t.isTuple := by
  rw [returns_iff_of_read (n := { type := ty, msgid := i, w0 := .ts ts1, w1 := .ts ts2
                                  w2 := if t.isTuple then .val t else .null })]
  · constructor
    · rintro ⟨-, -, h⟩
      simp only [fields, hw, List.take_succ_cons, List.cons.injEq, true_and] at h
      by_cases htup : t.isTuple = true
      · exact htup
      · rw [if_neg htup] at h
        cases h.1
    · intro htup
      simp only [htup, if_true]
      exact ⟨rfl, rfl, rfl⟩
  · rw [hb, buildAll_action, ha, Option.bind_some, buildAll_ts, hts, buildAll_ts, hts',
      ← List.append_nil (c.serialise t), buildAll_serialise ht, hv]
    rfl

end

end Message

/-- The calls whose message comes back. -/
def Build.Kept (env : Env) : Build → Prop
  | resultType _ | registerType _ | updateType _ _ | requestType _ => False
  | inspect _ | getPartitions _ | getRequests _ => False
  | myNameIs name => name = env.processId
  | out _ t | in_ _ t | rd _ t | inp _ t | rdp _ t | collect _ _ t | copyCollect _ _ t
  | tupleRequest _ t | cancelRequest _ t | multipleIn _ t => t.isTuple
  | _ => True

open Message

variable {c : ValueCodec} {env : Env} {b : Build} {m : Message}

/-- Every call of a constructor, with any id. -/
theorem returns_iff (hc : c.Sound) (hm : b.message env = some m)
    (hp : ∀ v, b.payload = some v → c.RoundTrips v) (i : Option MsgID) :
    ({ m with msgid := i } : Message).Returns c env ↔ b.Kept env := by
  cases b with
  | done => cases hm; exact iff_of_true (returns_bare "done" rfl fun _ => rfl) trivial
  | dontKnow => cases hm; exact iff_of_true (returns_bare "dont_know" rfl fun _ => rfl) trivial
  | unblock => cases hm; exact iff_of_true (returns_bare "unblock" rfl fun _ => rfl) trivial
  | monitor => cases hm; exact iff_of_true (returns_bare "monitor" rfl fun _ => rfl) trivial
  | listTs => cases hm; exact iff_of_true (returns_bare "list_ts" rfl fun _ => rfl) trivial
  | getRoutes => cases hm; exact iff_of_true (returns_bare "get_routes" rfl fun _ => rfl) trivial
  | registerProcess =>
    cases hm; exact iff_of_true (returns_bare "register_process" rfl fun _ => rfl) trivial
  | getNodeId => cases hm; exact iff_of_true (returns_bare "get_node_id" rfl fun _ => rfl) trivial
  | getNeighbours =>
    cases hm; exact iff_of_true (returns_bare "get_neighbours" rfl fun _ => rfl) trivial
  | resultString text =>
    cases hm
    exact iff_of_true ((returns_string_iff "result_string" hc text text rfl (fun _ => rfl) rfl
      rfl).2 rfl) trivial
  | getConnectionDetails id =>
    cases hm
    exact iff_of_true ((returns_string_iff "get_connection_details" hc id id rfl (fun _ => rfl) rfl
      rfl).2 rfl) trivial
  | registerThread =>
    cases hm
    exact iff_of_true ((returns_string_iff "register_thread" hc _ _ rfl (fun _ => rfl) rfl
      rfl).2 rfl) trivial
  | createTuplespace =>
    obtain ⟨tid, -, rfl⟩ := Option.map_eq_some_iff.1 hm
    exact iff_of_true ((returns_string_iff "create_tuplespace" hc _ _ rfl (fun _ => rfl) rfl
      rfl).2 rfl) trivial
  | myNameIs name =>
    cases hm
    exact returns_string_iff "my_name_is" hc name env.processId rfl (fun _ => rfl) rfl rfl
  | addReference ts =>
    obtain ⟨tid, -, rfl⟩ := Option.map_eq_some_iff.1 hm
    exact iff_of_true (returns_ref "add_reference" hc ts tid rfl (fun _ => rfl) rfl rfl) trivial
  | addReference2 ts id =>
    cases hm
    exact iff_of_true (returns_ref "add_reference" hc ts id rfl (fun _ => rfl) rfl rfl) trivial
  | deleteReference ts =>
    obtain ⟨tid, -, rfl⟩ := Option.map_eq_some_iff.1 hm
    exact iff_of_true (returns_ref "delete_reference" hc ts tid rfl (fun _ => rfl) rfl rfl) trivial
  | registerPartition ts ref =>
    cases hm
    exact iff_of_true (returns_ref "register_partition" hc ts ref rfl (fun _ => rfl) rfl rfl)
      trivial
  | deletedPartition ts ref =>
    cases hm
    exact iff_of_true (returns_ref "deleted_partition" hc ts ref rfl (fun _ => rfl) rfl rfl) trivial
  | inspect ts =>
    cases hm
    exact iff_of_false (not_returns_ts "inspect" ts rfl (fun _ => rfl) rfl rfl) id
  | getPartitions ts =>
    cases hm
    exact iff_of_false (not_returns_ts "get_partitions" ts rfl (fun _ => rfl) rfl rfl) id
  | getRequests ts =>
    cases hm
    exact iff_of_false (not_returns_ts "get_requests" ts rfl (fun _ => rfl) rfl rfl) id
  | out ts t =>
    cases hm
    exact returns_tuple_iff "out" ts t (hp t rfl) .null [] (by simp [body, valNode]) rfl rfl
      (by cases t <;> rfl) (fun _ => rfl) (Nat.le_refl 2)
  | tupleRequest ts t =>
    cases hm
    exact returns_tuple_iff "tuple_request" ts t (hp t rfl) .null [] (by simp [body, valNode]) rfl
      rfl (by cases t <;> rfl) (fun _ => rfl) (Nat.le_refl 2)
  | cancelRequest ts t =>
    cases hm
    exact returns_tuple_iff "cancel_request" ts t (hp t rfl) .null [] (by simp [body, valNode]) rfl
      rfl (by cases t <;> rfl) (fun _ => rfl) (Nat.le_refl 2)
  | multipleIn ts t =>
    cases hm
    exact returns_tuple_iff "multiple_in" ts t (hp t rfl) .null [] (by simp [body, valNode]) rfl
      rfl (by cases t <;> rfl) (fun _ => rfl) (Nat.le_refl 2)
  | in_ ts t =>
    obtain ⟨tid, -, rfl⟩ := Option.map_eq_some_iff.1 hm
    exact returns_tuple_iff "in" ts t (hp t rfl) (.str tid) [idNode "tid" (.str tid)] rfl rfl rfl
      (by cases t <;> rfl) (fun _ => buildAll_tid tid) (Nat.le_succ 2)
  | rd ts t =>
    obtain ⟨tid, -, rfl⟩ := Option.map_eq_some_iff.1 hm
    exact returns_tuple_iff "rd" ts t (hp t rfl) (.str tid) [idNode "tid" (.str tid)] rfl rfl rfl
      (by cases t <;> rfl) (fun _ => buildAll_tid tid) (Nat.le_succ 2)
  | inp ts t =>
    obtain ⟨tid, -, rfl⟩ := Option.map_eq_some_iff.1 hm
    exact returns_tuple_iff "inp" ts t (hp t rfl) (.str tid) [idNode "tid" (.str tid)] rfl rfl rfl
      (by cases t <;> rfl) (fun _ => buildAll_tid tid) (Nat.le_succ 2)
  | rdp ts t =>
    obtain ⟨tid, -, rfl⟩ := Option.map_eq_some_iff.1 hm
    exact returns_tuple_iff "rdp" ts t (hp t rfl) (.str tid) [idNode "tid" (.str tid)] rfl rfl rfl
      (by cases t <;> rfl) (fun _ => buildAll_tid tid) (Nat.le_succ 2)
  | collect ts1 ts2 t =>
    cases hm
    exact returns_collect_iff "collect" ts1 ts2 t (hp t rfl) rfl rfl rfl rfl (by cases t <;> rfl)
      rfl
  | copyCollect ts1 ts2 t =>
    cases hm
    exact returns_collect_iff "copy_collect" ts1 ts2 t (hp t rfl) rfl rfl rfl rfl
      (by cases t <;> rfl) rfl
  | resultInt n =>
    cases hm
    refine iff_of_true ((returns_iff_of_read (n := { type := .resultInt, msgid := i
                                                     w0 := .int n }) ?_).2 ⟨rfl, rfl, rfl⟩) trivial
    show buildAll c _ (action "result_int" :: c.serialise (.integer n.toInt)) = _
    rw [buildAll_action, show gotAction _ "result_int" = some _ from rfl, Option.bind_some,
      ← List.append_nil (c.serialise _), buildAll_serialise (hc.int n)]
    simp [gotValue, gotInteger]
  | resultTuple t =>
    simp only [Build.message] at hm
    split at hm <;> cases hm
    rename_i htup
    refine iff_of_true ((returns_iff_of_read (n := { type := .resultTuple, msgid := i
                                                     w0 := .val t }) ?_).2 ⟨rfl, rfl, rfl⟩) trivial
    show buildAll c _ (action "result_tuple" :: c.serialise t) = _
    rw [buildAll_action, show gotAction _ "result_tuple" = some _ from rfl, Option.bind_some,
      ← List.append_nil (c.serialise t), buildAll_serialise (hp t rfl)]
    cases t with
    | tuple => rfl
    | _ => cases htup
  | resultType t =>
    -- the reader does not know the action
    cases hm
    exact iff_of_false (not_returns_of_exit rfl) id
  | requestType typeId =>
    cases hm
    exact iff_of_false (not_returns_of_exit rfl) id
  | registerType t =>
    -- the process id behind the type ends up as its id
    cases hm
    refine iff_of_false (fun h => ?_) id
    rw [returns_iff_of_read (n := { type := .registerType, msgid := i, w0 := .str env.processId
                                    w1 := xmlWord c (.node "element" [] (c.serialise t)) })] at h
    · simpa [fields, MsgType.width] using h.fields
    · show buildAll c _ (action "register_type" :: .node "element" [] (c.serialise t) ::
        c.serialise (.string env.processId)) = _
      rw [buildAll_action, show gotAction _ "register_type" = some _ from rfl, Option.bind_some,
        buildAll_element, ← List.append_nil (c.serialise (.string _)),
        buildAll_serialise (hc.string _)]
      rfl
  | updateType typeId t =>
    -- here it ends up in a field that was empty
    cases hm
    refine iff_of_false (fun h => ?_) id
    rw [returns_iff_of_read (n := { type := .updateType, msgid := i, w0 := .str typeId
                                    w1 := xmlWord c (.node "element" [] (c.serialise t))
                                    w2 := .str env.processId })] at h
    · simpa [fields, MsgType.width] using h.fields
    · show buildAll c _ (action "update_type" :: c.serialise (.string typeId) ++
        [.node "element" [] (c.serialise t)] ++ c.serialise (.string env.processId)) = _
      rw [List.cons_append, List.cons_append, List.append_assoc, buildAll_action,
        show gotAction _ "update_type" = some _ from rfl, Option.bind_some,
        buildAll_serialise (hc.string _), List.singleton_append, buildAll_element,
        ← List.append_nil (c.serialise (.string env.processId)), buildAll_serialise (hc.string _)]
      rfl

end PyLinda
