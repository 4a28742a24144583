import PyLinda.Lib.Marking
import PyLinda.Server.Alone

/-!
# Garbage collection of a tuplespace

`doGarbageCollection` follows the references from a tuplespace with a queue and
remembers every tuplespace it looked up. It empties the list of references when
it meets neither a process nor the universal tuplespace.
-/

namespace PyLinda

open Lib

/-- `local_ts[ts].refs`. -/
def Server.refs? (s : Server) (ts : TsId) : Option (List Holder) :=
  ((s.lookup ts).bind s.obj?).map TupleSpace.refs

/-- A process or the universal tuplespace. -/
def Holder.isLive : Holder → Bool
  | .proc _ | .ts .uts => true
  | _ => false

/-- The holders that one comes to from the references `refs` through the references of
the local tuplespaces on the way. -/
inductive Server.ReachedFrom (s : Server) (refs : List Holder) : Holder → Prop where
  | root {h : Holder} : h ∈ refs → s.ReachedFrom refs h
  | through {ts : TsId} {l : List Holder} {h : Holder} : s.ReachedFrom refs (.ts ts) →
      s.refs? ts = some l → h ∈ l → s.ReachedFrom refs h

/-- Somebody alive can be reached. -/
def Server.Alive (s : Server) (refs : List Holder) : Prop :=
  ∃ h, s.ReachedFrom refs h ∧ h.isLive = true

/-- What the garbage walk does at a holder. -/
def Server.gcVisit (s : Server) : Holder → Visit Holder Unit
  | .proc _ | .ts .uts => .stop ()
  | .ts ts => .expand ((s.refs? ts).getD [])
  | .obj _ => .expand []

variable {s : Server} {t : TupleSpace} {o : ObjId} {refs : List Holder}

/-! ## The walk -/

theorem Server.gcVisit_support (s : Server) (x : Holder) (h : (s.gcVisit x).succ ≠ []) :
    x ∈ s.localTs.keys.map .ts := by
  cases x with
  | ts ts =>
    cases hl : s.lookup ts with
    | none => cases ts <;> simp [Server.gcVisit, Server.refs?, hl, Visit.succ] at h
    | some o => exact List.mem_map_of_mem (Dict.mem_keys_of_get? hl)
  | _ => simp [Server.gcVisit, Visit.succ] at h

/-- An edge of the walk goes from a local tuplespace to one of its references. -/
theorem gcVisit_edge {x y : Holder} (h : Edge s.gcVisit x y) :
    ∃ ts l, x = .ts ts ∧ s.refs? ts = some l ∧ y ∈ l := by
  cases x with
  | ts ts =>
    cases ts with
    | uts => simp [Edge, Server.gcVisit, Visit.succ] at h
    | sid g =>
      cases hl : s.refs? (.sid g) with
      | none => simp [Edge, Server.gcVisit, hl, Visit.succ] at h
      | some l => exact ⟨_, l, rfl, hl, by simpa [Edge, Server.gcVisit, hl, Visit.succ] using h⟩
  | _ => simp [Edge, Server.gcVisit, Visit.succ] at h

/-- The walk can come to nobody alive exactly when none is reached. -/
theorem gcVisit_expand_iff :
    (∀ h, Reachable s.gcVisit refs h → ∃ l, s.gcVisit h = .expand l) ↔ ¬ s.Alive refs := by
  have hdead : ∀ h : Holder, (∃ l, s.gcVisit h = .expand l) ↔ h.isLive = false := by
    intro h
    cases h with
    | ts ts => cases ts <;> simp [Server.gcVisit, Holder.isLive]
    | _ => simp [Server.gcVisit, Holder.isLive]
  simp only [hdead]
  constructor
  · rintro hall ⟨h, hh, hlive⟩
    have hreach : Reachable s.gcVisit refs h := by
      clear hlive
      induction hh with
      | root hmem => exact ⟨_, hmem, .refl⟩
      | @through ts l h _ hl hmem ih =>
        obtain ⟨x, hx, hxy⟩ := ih
        refine ⟨x, hx, hxy.tail ?_⟩
        cases ts with
        | uts => cases hall _ ⟨x, hx, hxy⟩
        | sid g => simpa [Edge, Server.gcVisit, hl, Visit.succ] using hmem
    rw [hall h hreach] at hlive
    cases hlive
  · rintro hno h ⟨x, hx, hxh⟩
    have hreach : s.ReachedFrom refs h := by
      induction hxh with
      | refl => exact .root hx
      | tail _ he ih =>
        obtain ⟨ts, l, rfl, hl, hy⟩ := gcVisit_edge he
        exact .through ih hl hy
    exact Bool.eq_false_iff.2 fun hlive => hno ⟨h, hreach, hlive⟩

/-! ## The steps of a thread -/

variable {k : List Act} {sp : List (List Act)} {snt : List (Tid × Reply)}
  {toCheck memo : List Holder}

/-- A turn of the walk is one of the queue with memory. -/
theorem gcTurn_cons (memo toCheck : List Holder) (i : Holder) : s.gcTurn memo (i :: toCheck) =
    if i ∈ memo then .next toCheck memo
    else match s.gcVisit i with
      | .stop _ => .alive
      | .expand l => .next (toCheck ++ l) (memo ++ [i]) := by
  cases i with
  | ts ts =>
    cases ts with
    | uts => rfl
    | sid g =>
      cases hl : (s.lookup (.sid g)).bind s.obj? <;>
        simp [Server.gcTurn, Server.gcVisit, Server.refs?, hl]
  | obj ts => simp [Server.gcTurn, Server.gcVisit]
  | proc pid => rfl

/-- The walk comes to the end of its queue. -/
theorem takes_gcWalk {C : Type} {step : C → Option C} {cfg : Server → List Act → C}
    (hcfg : Alone.Takes step cfg) (ht : s.obj? o = some t) {n : Nat} {r : Option Unit}
    (h : marking s.gcVisit n memo toCheck = some r) :
    Relation.ReflTransGen (fun c d => step c = some d) (cfg s (.gcWalk o toCheck memo :: k))
      (cfg (if r.isNone then s.setObj o { t with refs := [] } else s) k) := by
  have hexec : ∀ memo toCheck, (Act.gcWalk o toCheck memo).exec s =
      some (s.gcTurn memo toCheck |>.casesOn (.go s []) (.go (s.setObj o { t with refs := [] }) [])
        fun toCheck' memo' => .go s [.gcWalk o toCheck' memo']) := by
    intro memo toCheck
    simp only [Act.exec, Server.onObj, ht, Option.bind_some]
    cases s.gcTurn memo toCheck <;> rfl
  have hstep : ∀ memo toCheck s' next, (Act.gcWalk o toCheck memo).exec s = some (.go s' next) →
      step (cfg s (.gcWalk o toCheck memo :: k)) = some (cfg s' (next ++ k)) :=
    fun memo toCheck s' next he => hcfg s _ k s' next he (by simp)
  induction n generalizing memo toCheck with
  | zero => cases h
  | succ n ih =>
    cases toCheck with
    | nil =>
      cases h
      exact .single (hstep memo [] _ [] (hexec memo []))
    | cons i toCheck =>
      simp only [marking] at h
      have hturn := gcTurn_cons (s := s) memo toCheck i
      split at h
      · rename_i hm
        rw [if_pos hm] at hturn
        exact .head (hstep memo _ s [_] (by rw [hexec, hturn])) (ih h)
      · rename_i hm
        rw [if_neg hm] at hturn
        cases hv : s.gcVisit i with
        | stop r' =>
          rw [hv] at h hturn
          cases h
          exact .single (hstep memo _ s [] (by rw [hexec, hturn]))
        | expand l =>
          rw [hv] at h hturn
          exact .head (hstep memo _ s [_] (by rw [hexec, hturn])) (ih h)

theorem leads_gcWalk (ht : s.obj? o = some t) {n : Nat} {r : Option Unit}
    (h : marking s.gcVisit n memo toCheck = some r) :
    Alone.Leads ⟨s, .gcWalk o toCheck memo :: k, sp, snt⟩
      ⟨if r.isNone then s.setObj o { t with refs := [] } else s, k, sp, snt⟩ :=
  takes_gcWalk (Alone.takes sp snt) ht h

/-! ## What it does -/

theorem step_doGarbageCollection (ht : s.obj? o = some t) :
    Alone.step ⟨s, .doGarbageCollection o :: k, sp, snt⟩ =
      some ⟨s, .gcWalk o t.refs [.ts t.id] :: k, sp, snt⟩ := by
  simp [Alone.step, Act.exec, Server.onObj, ht, Effect.go]

/-- When nobody alive is reached the list gets empty, whether the tuplespace is still
in `local_ts` or not. -/
theorem leads_collected (ht : s.obj? o = some t) (hno : ¬ s.Alive t.refs) :
    Alone.Leads ⟨s, .doGarbageCollection o :: k, sp, snt⟩
      ⟨s.setObj o { t with refs := [] }, k, sp, snt⟩ := by
  obtain ⟨n, r, hn⟩ := marking_ends s.gcVisit_support [.ts t.id] t.refs
  cases r with
  | none => exact .head (step_doGarbageCollection ht) (leads_gcWalk ht hn)
  | some r =>
    obtain ⟨h, hh, hstop⟩ := marking_some hn
    obtain ⟨l, hl⟩ := gcVisit_expand_iff.2 hno h hh
    rw [hstop] at hl
    cases hl

/-- On any tables, the garbage collection of a local tuplespace other than the universal
one ends; it empties the list of references of this tuplespace, and changes nothing
else, when no process and no universal tuplespace is reached, and changes nothing when
one is. -/
theorem doGarbageCollection_exact (ht : s.obj? o = some t) (hl : s.lookup t.id = some o)
    (hid : t.id ≠ .uts) :
    (¬ s.Alive t.refs → Alone.Leads ⟨s, .doGarbageCollection o :: k, sp, snt⟩
      ⟨s.setObj o { t with refs := [] }, k, sp, snt⟩) ∧
    (s.Alive t.refs → Alone.Leads ⟨s, .doGarbageCollection o :: k, sp, snt⟩ ⟨s, k, sp, snt⟩) := by
  refine ⟨leads_collected ht, fun ha => ?_⟩
  have hself : s.gcVisit (.ts t.id) = .expand t.refs := by
    cases hi : t.id with
    | uts => exact absurd hi hid
    | sid g =>
      rw [hi] at hl
      simp [Server.gcVisit, Server.refs?, hl, ht]
  -- so the tuplespace itself may be in the memory from the start
  have hm : Marked s.gcVisit [.ts t.id] t.refs := by
    intro x hx
    obtain rfl := List.mem_singleton.1 hx
    exact ⟨t.refs, hself, fun y hy => .inr hy⟩
  obtain ⟨n, r, hn, hr⟩ := marking_iff s.gcVisit_support hm
  rw [gcVisit_expand_iff] at hr
  cases r with
  | none => exact absurd ha (hr.1 rfl)
  | some r => exact .head (step_doGarbageCollection ht) (leads_gcWalk ht hn)

/-- A tuplespace on a cycle, with a reference of a tuplespace that is gone. -/
def deadCycle : Server :=
  { Server.init with
    objs := [.init .uts, { TupleSpace.init (.sid 0) with refs := [.ts (.sid 1), .ts (.sid 2)] },
      { TupleSpace.init (.sid 1) with refs := [.ts (.sid 0), .ts (.sid 0)] }]
    localTs := (Server.init.localTs.set (.sid 0) 1).set (.sid 1) 2 }

theorem deadCycle_reached {h : Holder}
    (hh : deadCycle.ReachedFrom [.ts (.sid 1), .ts (.sid 2)] h) :
    h = .ts (.sid 0) ∨ h = .ts (.sid 1) ∨ h = .ts (.sid 2) := by
  induction hh with
  | root hmem =>
    rcases List.mem_cons.1 hmem with rfl | hmem
    · exact .inr (.inl rfl)
    · exact .inr (.inr (List.mem_singleton.1 hmem))
  | through _ hl hmem ih =>
    rcases ih with h | h | h <;> cases h
    · cases hl
      rcases List.mem_cons.1 hmem with rfl | hmem
      · exact .inr (.inl rfl)
      · exact .inr (.inr (List.mem_singleton.1 hmem))
    · cases hl
      simp at hmem
      exact .inl hmem
    · cases hl

theorem doGarbageCollection_cycle : Alone.Leads ⟨deadCycle, [.doGarbageCollection 1], [], []⟩
    ⟨deadCycle.setObj 1 (.init (.sid 0)), [], [], []⟩ := by
  refine (doGarbageCollection_exact (t := { TupleSpace.init (.sid 0) with
    refs := [.ts (.sid 1), .ts (.sid 2)] }) rfl rfl (fun h => TsId.noConfusion h)).1 ?_
  rintro ⟨h, hh, hlive⟩
  rcases deadCycle_reached hh with rfl | rfl | rfl <;> cases hlive

end PyLinda
