import PyLinda.Server.World

/-!
# What a step can change

Which parts of the tables a step of a thread touches, and how. The properties of
all runs follow from this without looking into the steps again.
-/

namespace PyLinda

open Lib

/-- What the step `a` on the tables `s` may do to the tuplespace `t`, the object `o`. -/
structure Act.Changes (a : Act) (s : Server) (o : ObjId) (t t' : TupleSpace) : Prop where
  id : t'.id = t.id
  requests : t'.requests = t.requests
  refs : t'.refs.Sublist t.refs ∨ ∃ ref, a = .addreference o ref ∧ t'.refs = t.refs ++ [ref]
  refsKept : t.refs.Sublist t'.refs ∨ (∃ ref, a = .removereference o ref ∨ a = .removeAll o ref) ∨
    ∃ toCheck memo, a = .gcWalk o toCheck memo ∧ s.gcTurn memo toCheck = .garbage
  killlock : t'.killlock = t.killlock ∨ a = .acquire o ∧ t.killlock = t'.killlock + 1 ∨
    (∃ ref, a = .removereference o ref ∨ a = .removeAll o ref) ∧ t'.killlock = t.killlock + 1
  contain : t'.ts.contain.Sublist t.ts.contain ∨
    ∃ tup, a = .outAt o tup ∧ t'.ts.contain = t.ts.contain ++ [tup]
  blocked : t'.blockedList.entries.Sublist t.blockedList.entries ∨
    ∃ r, a = .readAt o r ∧
      t' = (t.block r.tid ⟨r.template, r.msg.unblockable, r.msg.destructive⟩).ts

theorem Act.Changes.refl (a : Act) (s : Server) (o : ObjId) (t : TupleSpace) : a.Changes s o t t :=
  ⟨rfl, rfl, .inl (.refl _), .inl (.refl _), .inl rfl, .inl (.refl _), .inl (.refl _)⟩

/-- What the step `a` may do to the tables. -/
structure Act.Frame (a : Act) (s s' : Server) : Prop where
  objs : ∀ o t', s'.obj? o = some t' → (∃ t, s.obj? o = some t ∧ a.Changes s o t t') ∨
    ∃ ts, a = .newTupleSpace ts ∧ o = s.objs.length ∧ t' = .init ts
  grows : s.objs.length ≤ s'.objs.length
  localTs : s'.localTs = s.localTs ∨
    (∃ ts, a = .newTupleSpace ts ∧ s' = s.newTupleSpace ts) ∨
    ∃ ts, a = .dropTs ts ∧ s'.localTs = s.localTs.erase ts
  threads : s'.threads = s.threads ∨
    ∃ tid, a = .dropThread tid ∧ s'.threads = s.threads.erase tid
  blockedThreads : s'.blockedThreads = s.blockedThreads ∨
    (∃ ts r, a = .setBlocked ts r ∧ s'.blockedThreads = s.blockedThreads.set r.tid ts) ∨
    ∃ tid, a = .delBlocked tid ∧ s'.blockedThreads = s.blockedThreads.erase tid

variable {s s' : Server} {a : Act} {eff : Effect} {o o' : ObjId} {t t' : TupleSpace}

namespace Act.Frame

/-- The objects stay as they are. -/
theorem of_objs (hobjs : s'.objs = s.objs) (hl : s'.localTs = s.localTs)
    (ht : s'.threads = s.threads) (hb : s'.blockedThreads = s.blockedThreads) : a.Frame s s' where
  objs o t' h := .inl ⟨t', by simpa [Server.obj?, hobjs] using h, .refl a s o t'⟩
  grows := Nat.le_of_eq (by rw [hobjs])
  localTs := .inl hl
  threads := .inl ht
  blockedThreads := .inl hb

theorem refl (a : Act) (s : Server) : a.Frame s s := of_objs rfl rfl rfl rfl

/-- Objects stay where they are. -/
theorem kept (hf : a.Frame s s') (ht : s.obj? o = some t) :
    ∃ t', s'.obj? o = some t' ∧ a.Changes s o t t' := by
  have hlt : o < s.objs.length := (List.getElem?_eq_some_iff.1 ht).1
  have hlt' : o < s'.objs.length := Nat.lt_of_lt_of_le hlt hf.grows
  rcases hf.objs o _ (List.getElem?_eq_getElem hlt') with ⟨u, hu, hc⟩ | ⟨ts, -, ho, -⟩
  · rw [ht] at hu
    cases hu
    exact ⟨_, List.getElem?_eq_getElem hlt', hc⟩
  · exact absurd ho (Nat.ne_of_lt hlt)

/-- One object changes. -/
theorem setObj (ht : s.obj? o = some t) (hc : a.Changes s o t t') : a.Frame s (s.setObj o t') where
  objs o' u h := by
    by_cases ho : o' = o
    · subst ho
      rw [obj?_setObj_self ht t'] at h
      cases h
      exact .inl ⟨t, ht, hc⟩
    · rw [obj?_setObj_ne ho] at h
      exact .inl ⟨u, h, .refl a s o' u⟩
  grows := by simp [Server.setObj]
  localTs := .inl rfl
  threads := .inl rfl
  blockedThreads := .inl rfl

end Act.Frame

theorem out_changes (tup : Tuple) : (Act.outAt o tup).Changes s o t (t._out tup).ts where
  id := TupleSpace._out_id tup
  requests := TupleSpace._out_requests tup
  refs := .inl (by simp [TupleSpace._out_refs])
  refsKept := .inl (by simp [TupleSpace._out_refs])
  killlock := .inl (TupleSpace._out_killlock tup)
  contain := by
    rcases TupleSpace._out_contain (s := t) tup with h | ⟨-, h, -⟩
    · exact .inl (by simp [h])
    · exact .inr ⟨tup, rfl, h⟩
  blocked := by
    refine .inl ?_
    rw [TupleSpace._out_blockedList]
    exact checkBlocked_sublist tup _

theorem exec_frame (h : a.exec s = some eff) : a.Frame s eff.server := by
  cases a with
  | readAt o r =>
    obtain ⟨t, ht, ⟨-, rfl⟩ | ⟨m, c, -, -, hc, rfl⟩ | ⟨e, rfl⟩⟩ := readAt_cases h
    · exact .setObj ht ⟨rfl, rfl, .inl (.refl _), .inl (.refl _), .inl rfl, .inl (.refl _), .inr ⟨r, rfl, rfl⟩⟩
    · refine .setObj ht ⟨rfl, rfl, .inl (.refl _), .inl (.refl _), .inl rfl, .inl ?_, .inl (.refl _)⟩
      split at hc
      · exact deleteFirst_sublist hc
      · exact hc ▸ .refl _
    · exact .setObj ht (.refl _ s o t)
  | outAt o tup =>
    obtain ⟨t, ht, e, rfl⟩ := outAt_cases h
    exact .setObj ht (out_changes tup)
  | unblockRandom o =>
    obtain ⟨t, ht, ⟨-, rfl⟩ | ⟨p, -, rfl⟩⟩ := unblockRandom_cases h
    · exact .refl _ s
    · exact .setObj ht
        ⟨rfl, rfl, .inl (.refl _), .inl (.refl _), .inl rfl, .inl (.refl _), .inl List.filter_sublist⟩
  | collectAt p copy new o dest tmpl =>
    obtain ⟨t, d, c, ht, -, hc, ⟨e, rfl⟩ | ⟨tups, rfl⟩⟩ := collectAt_cases h
    all_goals
      refine .setObj ht ⟨rfl, rfl, .inl (.refl _), .inl (.refl _), .inl rfl, .inl hc, .inl (.refl _)⟩
  | newTupleSpace ts =>
    cases h
    refine ⟨fun o t' ht' => ?_, by simp [Effect.go, Server.newTupleSpace], .inr (.inl ⟨ts, rfl, rfl⟩),
      .inl rfl, .inl rfl⟩
    rcases obj?_newTupleSpace ht' with h | ⟨rfl, rfl⟩
    · exact .inl ⟨t', h, .refl _ s o t'⟩
    · exact .inr ⟨ts, rfl, rfl, rfl⟩
  | acquire o =>
    obtain ⟨t, ht, h⟩ := Server.onObj_eq_some.1 h
    split at h <;> cases h
    exact .setObj ht ⟨rfl, rfl, .inl (.refl _), .inl (.refl _),
      .inr (.inl ⟨rfl, (Nat.succ_pred_eq_of_pos (Nat.pos_of_ne_zero ‹_›)).symm⟩), .inl (.refl _),
      .inl (.refl _)⟩
  | removeAll o ref =>
    obtain ⟨t, ht, h⟩ := Server.onObj_eq_some.1 h
    cases h
    exact .setObj ht ⟨rfl, rfl, .inl List.filter_sublist, .inr (.inl ⟨ref, .inr rfl⟩),
      .inr (.inr ⟨⟨ref, .inr rfl⟩, rfl⟩), .inl (.refl _), .inl (.refl _)⟩
  | removereference o ref =>
    have hone : ∃ ref', Act.removereference o ref = .removereference o ref' ∨
        Act.removereference o ref = .removeAll o ref' := ⟨ref, .inl rfl⟩
    obtain ⟨t, ht, h⟩ := Server.onObj_eq_some.1 h
    split at h
    · cases h
      exact .setObj ht ⟨rfl, rfl, .inl (.refl _), .inr (.inl hone), .inr (.inr ⟨hone, rfl⟩),
        .inl (.refl _), .inl (.refl _)⟩
    · split at h <;> cases h
      · exact .setObj ht ⟨rfl, rfl, .inl List.erase_sublist, .inr (.inl hone),
          .inr (.inr ⟨hone, rfl⟩), .inl (.refl _), .inl (.refl _)⟩
      · exact .setObj ht ⟨rfl, rfl, .inl (.refl _), .inr (.inl hone), .inr (.inr ⟨hone, rfl⟩),
          .inl (.refl _), .inl (.refl _)⟩
  | addreference o ref =>
    obtain ⟨t, ht, h⟩ := Server.onObj_eq_some.1 h
    split at h <;> cases h
    · exact .refl _ s
    · exact .setObj ht ⟨rfl, rfl, .inr ⟨ref, rfl, rfl⟩, .inl (List.sublist_append_left _ _),
        .inl rfl, .inl (.refl _), .inl (.refl _)⟩
  | gcWalk o toCheck memo =>
    obtain ⟨t, ht, h⟩ := Server.onObj_eq_some.1 h
    split at h <;> cases h
    · exact .refl _ s
    · exact .setObj ht ⟨rfl, rfl, .inl (List.nil_sublist _), .inr (.inr ⟨_, _, rfl, ‹_›⟩), .inl rfl,
        .inl (.refl _), .inl (.refl _)⟩
    · exact .refl _ s
  | removeanyreferences | isDeadLocked | garbage =>
    obtain ⟨t, -, h⟩ := Server.onObj_eq_some.1 h
    split at h <;> cases h <;> exact .refl _ s
  | doGarbageCollection o =>
    obtain ⟨t, -, h⟩ := Server.onObj_eq_some.1 h
    cases h
    exact .refl _ s
  | walk o again refs ths =>
    simp only [Act.exec] at h
    split at h <;> cases h <;> exact .refl _ s
  | getBlocked =>
    simp only [Act.exec] at h
    split at h <;> cases h <;> exact .refl _ s
  | delBlocked tid =>
    simp only [Act.exec] at h
    split at h <;> cases h
    · exact ⟨fun o t' ht' => .inl ⟨t', ht', .refl _ s o t'⟩, Nat.le_refl _, .inl rfl, .inl rfl,
        .inr (.inr ⟨tid, rfl, rfl⟩)⟩
    · exact .refl _ s
  | setBlocked ts r =>
    cases h
    exact ⟨fun o t' ht' => .inl ⟨t', ht', .refl _ s o t'⟩, Nat.le_refl _, .inl rfl, .inl rfl,
      .inr (.inl ⟨ts, r, rfl, rfl⟩)⟩
  | dropThread tid =>
    simp only [Act.exec] at h
    split at h <;> cases h
    · exact ⟨fun o t' ht' => .inl ⟨t', ht', .refl _ s o t'⟩, Nat.le_refl _, .inl rfl,
        .inr ⟨tid, rfl, rfl⟩, .inl rfl⟩
    · exact .refl _ s
  | dropTs ts =>
    cases h
    exact ⟨fun o t' ht' => .inl ⟨t', ht', .refl _ s o t'⟩, Nat.le_refl _, .inr (.inr ⟨ts, rfl, rfl⟩),
      .inl rfl, .inl rfl⟩
  | dropProcess =>
    simp only [Act.exec] at h
    split at h <;> cases h <;> exact .of_objs rfl rfl rfl rfl
  | dropPthread t =>
    simp only [Act.exec] at h
    split at h
    · cases h
      exact .refl _ s
    · split at h <;> cases h <;> exact .of_objs rfl rfl rfl rfl
  | ifLast pid =>
    simp only [Act.exec] at h
    split at h <;> cases h <;> exact .refl _ s
  | read ts | out ts | addReference ts | deleteReference ts | deleteAllReferences ts
  | unblockAgain ts | ensure ts | collect _ _ ts | sweep ts | deleteRequest _ ts =>
    cases h
    rcases hl : s.lookup ts with _ | o <;> simp only [Server.onTs, hl] <;> exact .refl _ s
  | collectDest p copy new o ts tmpl =>
    cases h
    rcases hl : s.lookup ts with _ | o
    · cases new <;> simp only [Server.onTs, hl] <;> exact .refl _ s
    · simp only [Server.onTs, hl]
      exact .refl _ s
  | create =>
    cases h
    exact .of_objs rfl rfl rfl rfl
  | sendNowhere | forkDelete | reply | dropBlocked | dropReferences =>
    cases h
    exact .refl _ s

end PyLinda
