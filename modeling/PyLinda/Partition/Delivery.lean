import PyLinda.Partition.Step

/-!
# What a reader is handed

An immediate answer is the stored tuple that the scan found. A wake-up hands over
what `doesMatch(pattern, tup)` returned, which is the reader's own pattern.
-/

namespace PyLinda

open Lib

/-- A partition with the tuples put in and the requests made so far. -/
structure History where
  ts : TupleSpace
  outs : List Tuple
  asked : List (Tid × Tuple)

def History.init (id : TsId) : History := ⟨.init id, [], []⟩

def History.after (h : History) (op : Op) : History :=
  ⟨op.after h.ts, h.outs ++ op.accepted h.ts, h.asked ++ op.request.toList⟩

def HistoryStep (h : History) (op : Op) (h' : History) : Prop := AnyOp h.ts op ∧ h' = h.after op

/-- The tuple a request is answered with. -/
structure Answer where
  tid : Tid
  pattern : Tuple
  tuple : Tuple

def Spawn.answer : Spawn → Option Answer
  | .returnTuple tid matched pattern => some ⟨tid, pattern, matched⟩
  | _ => none

def Outcome.answer (tid : Tid) (pattern : Tuple) (o : Outcome (Option Tuple)) : List Answer :=
  match o.result with
  | .ok (some r) => [⟨tid, pattern, r⟩]
  | _ => []

/-- The answers a step gives, at once or through the threads it wakes. -/
def Op.answers (s : TupleSpace) : Op → List Answer
  | out tup => (s._out tup).spawned.filterMap Spawn.answer
  | rd tid pattern u => (s._rd tid pattern u).answer tid pattern
  | take tid pattern u => (s._in tid pattern u).answer tid pattern
  | _ => []

/-- The request was made, and the answer is a tuple that matches it: one that was
put in and is still stored, or the one being put in. -/
def Sound (h : History) (op : Op) (a : Answer) : Prop :=
  ((a.tid, a.pattern) ∈ h.asked ∨ op.request = some (a.tid, a.pattern)) ∧
    ∃ t, (t ∈ h.ts.ts.contain ∧ t ∈ h.outs ∨ op = .out t) ∧ a.tuple = t ∧ Matches t a.pattern

/-- Every reader that the scan for `tup` wakes asked for exactly `tup`. -/
def HandsOver (s : TupleSpace) : Op → Prop
  | .out tup => ∀ x, Visited tup s.blockedList.entries x → Matches x.2.pattern tup →
      x.2.pattern = tup
  | _ => True

/-- What every step keeps. A pattern that matches itself is not stored while a
reader waits with it. -/
structure Recorded (h : History) : Prop where
  contain : ∀ t ∈ h.ts.ts.contain, t ∈ h.outs
  blocked : ∀ x ∈ h.ts.blockedList.entries, (x.1, x.2.pattern) ∈ h.asked
  fresh : ∀ x ∈ h.ts.blockedList.entries, x.2.pattern ∈ h.ts.ts.contain →
    ¬ Matches x.2.pattern x.2.pattern

variable {h : History} {op : Op}

theorem Recorded.after (hr : Recorded h) (hop : AnyOp h.ts op) : Recorded (h.after op) where
  contain t ht := by
    rw [History.after, List.mem_append]
    rcases mem_after_contain ht with hold | ⟨-, hacc, -⟩
    · exact .inl (hr.contain t hold)
    · exact .inr (by simp [hacc])
  blocked x hx := by
    rw [History.after, List.mem_append]
    rcases mem_after_blocked hop hx with hold | ⟨hreq, -, -⟩
    · exact .inl (hr.blocked x hold)
    · exact .inr (by simp [hreq])
  fresh x hx hc hm := by
    rcases mem_after_blocked hop hx with hold | ⟨-, hskip, hts⟩
    · rcases mem_after_contain hc with hc | ⟨rfl, -, hpass⟩
      · exact hr.fresh x hold hc hm
      · -- the scan for this very tuple would have woken the reader
        rcases checkBlocked_end x.2.pattern h.ts.blockedList.entries with
          ⟨-, -, hstay⟩ | ⟨_, _, _, -, -, -, -, he⟩ | ⟨_, _, _, _, -, -, -, he⟩
        · exact hm.not_skips (hstay x (by simpa [History.after, Op.after] using hx))
        · rw [hpass] at he; cases he
        · rw [hpass] at he; cases he
    · rw [History.after, hts] at hc
      exact hm.not_skips (hskip _ hc)

theorem mem_answer_spawned {s : TupleSpace} {tup : Tuple} {a : Answer} :
    a ∈ (Op.out tup).answers s ↔ ∃ x, Visited tup s.blockedList.entries x ∧
      Matches x.2.pattern tup ∧ a = ⟨x.1, x.2.pattern, x.2.pattern⟩ := by
  simp only [Op.answers, List.mem_filterMap]
  constructor
  · rintro ⟨sp, hsp, ha⟩
    rcases sp with ⟨tid, m, p⟩ | ⟨n, m⟩ | p
    · rw [TupleSpace.returnTuple_mem_spawned, mem_woken_iff] at hsp
      obtain ⟨x, hv, hm, he⟩ := hsp
      cases he
      cases ha
      exact ⟨x, hv, hm, rfl⟩
    · cases ha
    · cases ha
  · rintro ⟨x, hv, hm, rfl⟩
    refine ⟨.returnTuple x.1 x.2.pattern x.2.pattern, ?_, rfl⟩
    rw [TupleSpace.returnTuple_mem_spawned, mem_woken_iff]
    exact ⟨x, hv, hm, rfl⟩

/-- The answers of an `out` are sound exactly when the readers it wakes asked for
the tuple itself. -/
theorem sound_out_iff (hr : Recorded h) (tup : Tuple) :
    (∀ a ∈ (Op.out tup).answers h.ts, Sound h (.out tup) a) ↔ HandsOver h.ts (.out tup) := by
  simp only [mem_answer_spawned, HandsOver]
  constructor
  · rintro ha x hv hm
    obtain ⟨-, t, ht, he, htm⟩ := ha _ ⟨x, hv, hm, rfl⟩
    obtain rfl : x.2.pattern = t := he
    rcases ht with ⟨ht, -⟩ | ht
    · exact absurd htm (hr.fresh x hv.mem ht)
    · cases ht
      rfl
  · rintro hx _ ⟨x, hv, hm, rfl⟩
    have he := hx x hv hm
    exact ⟨.inl (hr.blocked x hv.mem), tup, .inr rfl, he, he ▸ hm⟩

theorem mem_outcome_answer {tid : Tid} {p : Tuple} {o : Outcome (Option Tuple)} {a : Answer} :
    a ∈ o.answer tid p ↔ ∃ r, o.result = .ok (some r) ∧ a = ⟨tid, p, r⟩ := by
  rcases hr : o.result with e | _ | r <;> simp [Outcome.answer, hr]

/-- An immediate answer is always sound. -/
theorem sound_immediate (hr : Recorded h) (hput : op.put = []) :
    ∀ a ∈ op.answers h.ts, Sound h op a := by
  intro a ha
  cases op with
  | rd tid p u =>
    obtain ⟨r, he, rfl⟩ := mem_outcome_answer.1 ha
    rcases TupleSpace._rd_cases (s := h.ts) tid p u with
      ⟨-, hx⟩ | ⟨pre, t, post, hl, -, hm, hx⟩ | ⟨e, hx⟩
    · simp [hx, TupleSpace.block] at he
    · simp only [hx, Except.ok.injEq, Option.some.injEq] at he
      have ht : t ∈ h.ts.ts.contain := by simp [hl]
      exact ⟨.inr rfl, t, .inl ⟨ht, hr.contain t ht⟩, he.symm, hm⟩
    · simp [hx] at he
  | take tid p u =>
    obtain ⟨r, he, rfl⟩ := mem_outcome_answer.1 ha
    rcases TupleSpace._in_cases (s := h.ts) tid p u with
      ⟨-, hx⟩ | ⟨pre, t, post, c, hl, -, hm, -, hx⟩ | ⟨e, -, hx⟩
    · simp [hx, TupleSpace.block] at he
    · simp only [hx, Except.ok.injEq, Option.some.injEq] at he
      have ht : t ∈ h.ts.ts.contain := by simp [hl]
      exact ⟨.inr rfl, t, .inl ⟨ht, hr.contain t ht⟩, he.symm, hm⟩
    · simp [hx] at he
  | out tup => cases hput
  | _ => simp [Op.answers] at ha

/-- In every run, the answers of a step are sound exactly when each reader it
wakes asked for the tuple put in. -/
theorem answers_sound_iff {id : TsId} {tr : List (History × Op)} {h' : History}
    (hrun : Run HistoryStep (History.init id) tr h') :
    ∀ x ∈ tr, (∀ a ∈ x.2.answers x.1.ts, Sound x.1 x.2 a) ↔ HandsOver x.1.ts x.2 := by
  have hinit : Recorded (History.init id) := by
    constructor <;> simp [History.init, TupleSpace.init, Dict.empty]
  have hrec : ∀ x ∈ tr, Recorded x.1 := by
    refine hrun.inv_mem (C := fun _ _ => True) ?_ hinit (fun _ _ => trivial)
    rintro h op _ hr - ⟨hop, rfl⟩
    exact hr.after hop
  rintro ⟨h, op⟩ hx
  cases op with
  | out tup => exact sound_out_iff (hrec _ hx) tup
  | _ => exact iff_of_true (sound_immediate (hrec _ hx) rfl) trivial

/-! ## A tuple that holds a type -/

def tidB : Tid := ⟨⟨2⟩, 1⟩

/-- `in((5,))` blocks, then `out((int,))` hands the reader `(5,)`, which nobody put in. -/
theorem delivered_pattern :
    let ops := [.take tidB [.integer 5] false, .out [.type longType]]
    let tr := trace History.after (.init .uts) ops
    Run HistoryStep (.init .uts) tr (exec History.after (.init .uts) ops) ∧
      ∃ x ∈ tr, ∃ a ∈ x.2.answers x.1.ts, a.tuple = [.integer 5] ∧ ¬ Sound x.1 x.2 a := by
  refine ⟨.of_exec ?_, _, List.mem_cons_of_mem _ List.mem_cons_self,
    ⟨tidB, [.integer 5], [.integer 5]⟩, List.mem_cons_self, rfl, ?_⟩
  · simp [trace, HistoryStep, AnyOp]
  · rintro ⟨-, t, ⟨ht, -⟩ | ht, he, -⟩
    · cases ht
    · cases ht
      cases he

/-- `out((5,))` hands the same reader its tuple. -/
theorem answers_sound_value :
    let s := (History.init .uts).after (.take tidB [.integer 5] false)
    ∀ a ∈ (Op.out [.integer 5]).answers s.ts, Sound s (.out [.integer 5]) a := by
  have hrun : Run HistoryStep (.init .uts)
      (trace History.after (.init .uts) [.take tidB [.integer 5] false, .out [.integer 5]])
      (exec History.after (.init .uts) [.take tidB [.integer 5] false, .out [.integer 5]]) :=
    .of_exec (by simp [trace, HistoryStep, AnyOp])
  refine (answers_sound_iff hrun _ (List.mem_cons_of_mem _ List.mem_cons_self)).2 ?_
  rintro x hv -
  obtain rfl := List.mem_singleton.1 hv.mem
  rfl

end PyLinda
