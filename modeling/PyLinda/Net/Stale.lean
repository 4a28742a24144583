import PyLinda.Net.Books

/-!
# No stale requests

A partition that joins takes over the entries that somebody else has, and from then on
every step keeps the books. `requests_accurate` is what follows for a run: a partition
has one entry for each thread that is blocked at another node, when nothing is under way.
-/

set_option linter.unusedSectionVars false

namespace PyLinda.Requests

open Lib

variable {N R T : Type} [DecidableEq N] [DecidableEq R] [DecidableEq T]
  {nodes : List N} {c : Cluster N R T} {n m : N} {s s' : Node N R T} {ts : Part N R T}
  {t : Task N R T} {tid : R} {p : T}

/-! ## A partition that joins -/

theorem Kept.setPart_ne {ts' : Part N R T} {k : N} (hk : k ≠ n) : (c.setPart n ts') k = c k :=
  Cluster.set_ne hk

theorem Kept.setPart_self {ts' : Part N R T} :
    (c.setPart n ts') n = { c n with part := some ts' } := Cluster.set_self

/-- Without threads a server owes an entry for each blocked reader. -/
theorem debt_of_quiet (hp : s.part = some ts) (hq : s.tasks = []) : s.debt m p = ts.parked p := by
  rw [debt_eq hp, hq, weight_nil, add_zero]

/-- A server on which nothing happens, whose readers are those it had, or none. -/
theorem sound_of_quiet (h : s.Sound n) (hq : s'.tasks = [])
    (hbt : s'.blockedThreads = s.blockedThreads)
    (hent : ∀ q', s'.part = some q' → q'.blockedList.entries = [] ∨
      ∃ q, s.part = some q ∧ q'.blockedList.entries = q.blockedList.entries) : s'.Sound n := by
  refine ⟨?_, ?_, ?_⟩
  · intro t ht
    rw [hq] at ht
    cases ht
  · intro tid
    cases hp : s'.part with
    | none => simp [Node.places, hp, hq]
    | some q' =>
      rw [places_eq hp, hq, weight_nil]
      unfold Part.listed
      rcases hent q' hp with hnil | ⟨q, hqp, heq⟩
      · rw [hnil]
        exact Nat.zero_le _
      · have h1 := h.once tid
        rw [places_eq hqp] at h1
        unfold Part.listed at h1
        rw [heq]
        omega
  · intro q' hp e he
    rw [hbt]
    rcases hent q' hp with hnil | ⟨q, hqp, heq⟩
    · rw [hnil] at he
      cases he
    · rw [heq] at he
      exact h.kept q hqp e he

theorem Kept.create {order : List N} (h : Kept nodes c) (hq : c.Quiescent)
    (hnone : (c n).part = none) (hn : n ∈ nodes) (hnd : nodes.Nodup)
    (horder : order.Perm (nodes.erase n)) :
    Kept nodes (c.setPart n { phase := .announce order }) := by
  have hpart : ∀ k q, ((c.setPart n { phase := .announce order }) k).part = some q →
      k = n ∧ q = { phase := .announce order } ∨ k ≠ n ∧ (c k).part = some q := by
    intro k q hk
    by_cases hkn : k = n
    · subst hkn
      rw [Kept.setPart_self] at hk
      cases hk
      exact .inl ⟨rfl, rfl⟩
    · rw [Kept.setPart_ne hkn] at hk
      exact .inr ⟨hkn, hk⟩
  have hmem : ∀ k, k ∈ order ↔ k ≠ n ∧ k ∈ nodes := fun k =>
    horder.mem_iff.trans (List.Nodup.mem_erase_iff hnd)
  refine ⟨?_, ?_, ?_, ?_, ?_, ?_⟩
  · intro k
    by_cases hkn : k = n
    · subst hkn
      rw [Kept.setPart_self]
      refine sound_of_quiet (h.sound k) (hq.2 k) rfl fun q hq' => .inl ?_
      cases hq'
      rfl
    · rw [Kept.setPart_ne hkn]
      exact h.sound k
  · intro k hk
    obtain ⟨q, hkq⟩ := Option.isSome_iff_exists.1 hk
    obtain ⟨rfl, -⟩ | ⟨-, hc⟩ := hpart k q hkq
    · exact hn
    · exact h.among k (by rw [hc]; rfl)
  · intro k q hk hidle
    obtain ⟨-, rfl⟩ | ⟨hkn, hc⟩ := hpart k q hk
    · cases hidle
    · obtain ⟨hqnd, hqmem⟩ := h.lists_settled hq.1 hc
      refine ⟨hqnd, fun m => (hqmem m).trans (and_congr_right fun _ => ?_)⟩
      by_cases hmn : m = n
      · subst hmn
        rw [Kept.setPart_self, hnone]
        refine ⟨nofun, fun ⟨q', hq', hkn'⟩ => ?_⟩
        cases hq'
        exact absurd ((hmem k).2 ⟨hkn, h.among k (by rw [hc]; rfl)⟩) hkn'
      · rw [Kept.setPart_ne hmn]
        constructor
        · intro hs
          obtain ⟨q', hq'⟩ := Option.isSome_iff_exists.1 hs
          refine ⟨q', hq', ?_⟩
          rw [hq.1 m q' hq']
          trivial
        · rintro ⟨q', hq', -⟩
          rw [hq']
          rfl
  · intro k m q hkm hk hm hidle p
    obtain ⟨-, rfl⟩ | ⟨hmn, hc⟩ := hpart m q hm
    · cases hidle
    · by_cases hkn : k = n
      · subst hkn
        rw [Kept.setPart_self, List.count_eq_zero.2 (h.foreign k m q hc (.inr hnone) p)]
        exact (debt_of_quiet (s := { c k with part := some { phase := .announce order } })
          rfl (hq.2 k)).symm
      · rw [Kept.setPart_ne hkn] at hk ⊢
        exact h.books k m q hkm hk hc hidle p
  · intro k m q hm hor p
    obtain ⟨-, rfl⟩ | ⟨hmn, hc⟩ := hpart m q hm
    · exact nofun
    · refine h.foreign k m q hc (hor.imp_right fun hnk => ?_) p
      by_cases hkn : k = n
      · rw [hkn]
        exact hnone
      · rwa [Kept.setPart_ne hkn] at hnk
  · intro k q hk hj
    obtain ⟨rfl, rfl⟩ | ⟨hkn, hc⟩ := hpart k q hk
    · refine ⟨?_, ?_, ⟨rfl, rfl⟩, ⟨rfl, ?_, ?_⟩⟩
      · intro m
        by_cases hmk : m = k
        · subst hmk
          rw [Kept.setPart_self]
          exact hq.2 m
        · rw [Kept.setPart_ne hmk]
          exact hq.2 m
      · intro m q' hmk hq'
        rw [Kept.setPart_ne hmk] at hq'
        exact hq.1 m q' hq'
      · exact horder.nodup_iff.2 (hnd.erase k)
      · exact fun hk' => ((hmem k).1 hk').1 rfl
    · exact absurd (hq.1 k q hc) hj

theorem learned_congr {c' : Cluster N R T} (hsome : ∀ m, (c' m).part.isSome = (c m).part.isSome)
    (h : ts.Learned c n) : ts.Learned c' n := by
  unfold Part.Learned at h ⊢
  cases hph : ts.phase <;> simp only [hph] at h ⊢
  case announce => exact h
  case getPartitions =>
    refine ⟨h.1, h.2.1, fun m hm hs => h.2.2 m hm ?_⟩
    rwa [hsome] at hs
  case getRequests =>
    refine ⟨h.1, h.2.1, fun m => ?_⟩
    rw [hsome]
    exact h.2.2 m

/-- A step of the partition that joins: it becomes `ts'`, and the others get the lists `told`. -/
theorem Kept.join {c' : Cluster N R T} (h : Kept nodes c) (ts' : Part N R T)
    (told : N → Part N R T → List N) (hp : (c n).part = some ts) (hj : Joins c n ts)
    (hself : c' n = { c n with part := some ts' })
    (hothers : ∀ k, k ≠ n →
      c' k = { c k with part := (c k).part.map fun q => { q with partitions := told k q } })
    (hblank : ts'.blockedList.entries = [])
    (htold : ∀ k q, k ≠ n → (c k).part = some q → (told k q).Nodup ∧
      ∀ m, m ∈ told k q ↔ if m = n then ts'.phase.Known k else m ∈ q.partitions)
    (hlearned : ts'.phase ≠ .idle → ts'.requests = [] ∧ ts'.Learned c n)
    (hdone : ts'.phase = .idle → ts'.partitions.Nodup ∧
      (∀ m, m ∈ ts'.partitions ↔ m ≠ n ∧ (c m).part.isSome) ∧
      (∀ k, k ≠ n → (c k).part.isSome → ∀ p,
        (ts'.requests.count (k, p) : Int) = (c k).debt n p) ∧
      ∀ k p, k = n ∨ (c k).part = none → (k, p) ∉ ts'.requests) : Kept nodes c' := by
  have hpart : ∀ k q', (c' k).part = some q' → k = n ∧ q' = ts' ∨
      k ≠ n ∧ ∃ q, (c k).part = some q ∧ q' = { q with partitions := told k q } := by
    intro k q' hq'
    by_cases hkn : k = n
    · subst hkn
      rw [hself] at hq'
      cases hq'
      exact .inl ⟨rfl, rfl⟩
    · rw [hothers k hkn] at hq'
      obtain ⟨q, hq, rfl⟩ := Option.map_eq_some_iff.1 hq'
      exact .inr ⟨hkn, q, hq, rfl⟩
  have hsome : ∀ k, (c' k).part.isSome = (c k).part.isSome := by
    intro k
    by_cases hkn : k = n
    · subst hkn
      rw [hself, hp]
      rfl
    · rw [hothers k hkn]
      exact Option.isSome_map
  have htasks : ∀ k, (c' k).tasks = [] := by
    intro k
    by_cases hkn : k = n
    · subst hkn
      rw [hself]
      exact hj.quiet k
    · rw [hothers k hkn]
      exact hj.quiet k
  have hdebt : ∀ k m p, (c' k).debt m p = (c k).debt m p := by
    intro k m p
    by_cases hkn : k = n
    · subst hkn
      rw [hself, debt_of_quiet hp (hj.quiet k)]
      have h1 := debt_of_quiet (s := { c k with part := some ts' }) (m := m) (p := p) rfl (hj.quiet k)
      rw [h1]
      unfold Part.parked
      rw [hblank, hj.blank.1]
    · rw [hothers k hkn]
      unfold Node.debt
      cases (c k).part <;> rfl
  refine ⟨?_, ?_, ?_, ?_, ?_, ?_⟩
  · intro k
    by_cases hkn : k = n
    · subst hkn
      rw [hself]
      refine sound_of_quiet (h.sound k) (hj.quiet k) rfl fun q hq => .inl ?_
      cases hq
      exact hblank
    · rw [hothers k hkn]
      refine sound_of_quiet (h.sound k) (hj.quiet k) rfl fun q' hq' => .inr ?_
      obtain ⟨q, hq, rfl⟩ := Option.map_eq_some_iff.1 hq'
      exact ⟨q, hq, rfl⟩
  · intro k hk
    rw [hsome] at hk
    exact h.among k hk
  · intro k q' hq' hidle
    have hsettled : ∀ m, (∃ q, (c m).part = some q) → m ≠ n → ∃ q, (c m).part = some q ∧ q.phase = .idle :=
      fun m ⟨q, hq⟩ hm => ⟨q, hq, hj.others m q hm hq⟩
    obtain ⟨rfl, rfl⟩ | ⟨hkn, q, hq, rfl⟩ := hpart k q' hq'
    · obtain ⟨hnd, hmem, -⟩ := hdone hidle
      refine ⟨hnd, fun m => (hmem m).trans (and_congr_right fun hm => ?_)⟩
      constructor
      · intro hs
        obtain ⟨q, hq, hqi⟩ := hsettled m (Option.isSome_iff_exists.1 hs) hm
        refine ⟨{ q with partitions := told m q }, by rw [hothers m hm, hq]; rfl, ?_⟩
        show q.phase.Known k
        rw [hqi]
        trivial
      · rintro ⟨q, hq, -⟩
        rw [← hsome, hq]
        rfl
    · obtain ⟨hnd, hmem⟩ := htold k q hkn hq
      refine ⟨hnd, fun m => (hmem m).trans ?_⟩
      by_cases hm : m = n
      · subst hm
        rw [if_pos rfl]
        constructor
        · exact fun hknown => ⟨Ne.symm hkn, ts', by rw [hself], hknown⟩
        · rintro ⟨-, q', hq', hknown⟩
          rw [hself] at hq'
          cases hq'
          exact hknown
      · rw [if_neg hm, (h.lists k q hq hidle).2 m]
        refine and_congr_right fun _ => ?_
        constructor
        · rintro ⟨q', hq', hknown⟩
          exact ⟨{ q' with partitions := told m q' }, by rw [hothers m hm, hq']; rfl, hknown⟩
        · rintro ⟨q', hq', hknown⟩
          obtain ⟨rfl, -⟩ | ⟨-, q'', hq'', rfl⟩ := hpart m q' hq'
          · exact absurd rfl hm
          · exact ⟨q'', hq'', hknown⟩
  · intro k m q' hkm hk hq' hidle p
    rw [hsome] at hk
    rw [hdebt]
    obtain ⟨rfl, rfl⟩ | ⟨-, q, hq, rfl⟩ := hpart m q' hq'
    · exact (hdone hidle).2.2.1 k hkm hk p
    · exact h.books k m q hkm hk hq hidle p
  · intro k m q' hq' hor p
    have hor' : k = m ∨ (c k).part = none := by
      refine hor.imp_right fun hnone => ?_
      have h1 := hsome k
      rw [hnone] at h1
      exact Option.not_isSome_iff_eq_none.1 (by rw [← h1]; exact Bool.false_ne_true)
    obtain ⟨rfl, rfl⟩ | ⟨-, q, hq, rfl⟩ := hpart m q' hq'
    · by_cases hidle : q'.phase = .idle
      · exact (hdone hidle).2.2.2 k p hor'
      · rw [(hlearned hidle).1]
        exact List.not_mem_nil
    · exact h.foreign k m q hq hor' p
  · intro k q' hq' hbusy
    obtain ⟨rfl, rfl⟩ | ⟨hkn, q, hq, rfl⟩ := hpart k q' hq'
    · obtain ⟨hreq, hl⟩ := hlearned hbusy
      refine ⟨htasks, ?_, ⟨hblank, hreq⟩, learned_congr hsome hl⟩
      intro m q hm hq
      obtain ⟨rfl, -⟩ | ⟨-, q', hq', rfl⟩ := hpart m q hq
      · exact absurd rfl hm
      · exact hj.others m q' hm hq'
    · exact absurd (hj.others k q hkn hq) hbusy

theorem map_part (s : Node N R T) {f : Part N R T → Part N R T}
    (hf : ∀ q, s.part = some q → f q = q) : { s with part := s.part.map f } = s := by
  obtain ⟨part, blockedThreads, tasks⟩ := s
  cases part with
  | none => rfl
  | some q => rw [Option.map_some, hf q rfl]

theorem registerPartition_cases :
    (c m).part = none ∧ c.registerPartition m n = c ∨
    ∃ q, (c m).part = some q ∧
      c.registerPartition m n = c.setPart m { q with partitions := q.partitions ++ [n] } := by
  unfold Cluster.registerPartition
  cases hp : (c m).part with
  | none => exact .inl ⟨rfl, rfl⟩
  | some q => exact .inr ⟨q, rfl, rfl⟩

theorem registerPartition_self : (c.registerPartition m n) m =
    { c m with part := (c m).part.map fun q => { q with partitions := q.partitions ++ [n] } } := by
  obtain ⟨hp, he⟩ | ⟨q, hp, he⟩ := registerPartition_cases (c := c) (m := m) (n := n)
  · rw [he]
    refine (map_part (c m) fun q hq => ?_).symm
    rw [hp] at hq
    cases hq
  · rw [he, Kept.setPart_self, hp]
    rfl

theorem registerPartition_ne {k : N} (hk : k ≠ m) : (c.registerPartition m n) k = c k := by
  obtain ⟨-, he⟩ | ⟨q, -, he⟩ := registerPartition_cases (c := c) (m := m) (n := n)
  · rw [he]
  · rw [he]
    exact Kept.setPart_ne hk

/-- A step of the partition that joins which the others do not see. -/
theorem Kept.join_self {ts' : Part N R T} (h : Kept nodes c) (hp : (c n).part = some ts)
    (hj : Joins c n ts) (hblank : ts'.blockedList.entries = [])
    (hknown : ∀ k, ts.phase.Known k ∧ ts'.phase.Known k)
    (hlearned : ts'.phase ≠ .idle → ts'.requests = [] ∧ ts'.Learned c n)
    (hdone : ts'.phase = .idle → ts'.partitions.Nodup ∧
      (∀ m, m ∈ ts'.partitions ↔ m ≠ n ∧ (c m).part.isSome) ∧
      (∀ k, k ≠ n → (c k).part.isSome → ∀ p,
        (ts'.requests.count (k, p) : Int) = (c k).debt n p) ∧
      ∀ k p, k = n ∨ (c k).part = none → (k, p) ∉ ts'.requests) :
    Kept nodes (c.setPart n ts') := by
  refine h.join ts' (fun _ q => q.partitions) hp hj Kept.setPart_self ?_ hblank ?_
    hlearned hdone
  · intro k hk
    rw [Kept.setPart_ne hk]
    exact (map_part (c k) fun _ _ => rfl).symm
  · intro k q hk hq
    obtain ⟨hnd, hmem⟩ := h.lists k q hq (hj.others k q hk hq)
    refine ⟨hnd, fun m => ?_⟩
    split
    · rename_i hm
      subst hm
      refine ⟨fun _ => (hknown k).2, fun _ => (hmem m).2 ⟨Ne.symm hk, ts, hp, (hknown k).1⟩⟩
    · rfl

theorem Kept.announce {todo : List N} (h : Kept nodes c) (hp : (c n).part = some ts)
    (hph : ts.phase = .announce (m :: todo)) (hmn : m ≠ n) :
    Kept nodes ((c.registerPartition m n).setPart n { ts with phase := .announce todo }) := by
  have hj : Joins c n ts := h.joins n ts hp (by rw [hph]; exact nofun)
  have hl := hj.learned
  unfold Part.Learned at hl
  simp only [hph] at hl
  obtain ⟨hps, hnd, hn⟩ := hl
  refine h.join { ts with phase := .announce todo }
    (fun k q => if k = m then q.partitions ++ [n] else q.partitions) hp hj ?_ ?_ hj.blank.1
    ?_ ?_ nofun
  · rw [Kept.setPart_self, registerPartition_ne (Ne.symm hmn)]
  · intro k hk
    rw [Kept.setPart_ne hk]
    by_cases hkm : k = m
    · subst hkm
      rw [registerPartition_self]
      simp only [if_true]
    · rw [registerPartition_ne hkm]
      simp only [hkm, if_false]
      exact (map_part (c k) fun _ _ => rfl).symm
  · intro k q hk hq
    obtain ⟨hqnd, hqmem⟩ := h.lists k q hq (hj.others k q hk hq)
    have hknown : n ∈ q.partitions ↔ k ∉ m :: todo := by
      rw [hqmem n]
      constructor
      · rintro ⟨-, q', hq', hknown⟩
        rw [hp] at hq'
        cases hq'
        rw [hph] at hknown
        exact hknown
      · intro hk'
        refine ⟨Ne.symm hk, ts, hp, ?_⟩
        rw [hph]
        exact hk'
    show (if k = m then q.partitions ++ [n] else q.partitions).Nodup ∧ ∀ x,
      x ∈ (if k = m then q.partitions ++ [n] else q.partitions) ↔
        if x = n then k ∉ todo else x ∈ q.partitions
    by_cases hkm : k = m
    · subst hkm
      have hnq : n ∉ q.partitions := fun hx => hknown.1 hx List.mem_cons_self
      rw [if_pos rfl]
      refine ⟨List.nodup_append.2 ⟨hqnd, List.nodup_singleton n, ?_⟩, fun x => ?_⟩
      · intro a ha b hb hab
        rw [List.mem_singleton.1 hb] at hab
        exact hnq (hab ▸ ha)
      · rw [List.mem_append, List.mem_singleton]
        split
        · rename_i hx
          subst hx
          exact ⟨fun _ => (List.nodup_cons.1 hnd).1, fun _ => .inr rfl⟩
        · rename_i hx
          exact ⟨fun hor => hor.resolve_right hx, .inl⟩
    · rw [if_neg hkm]
      refine ⟨hqnd, fun x => ?_⟩
      split
      · rename_i hx
        subst hx
        rw [hknown, List.mem_cons, not_or]
        exact ⟨And.right, fun hk' => ⟨hkm, hk'⟩⟩
      · rfl
  · intro _
    exact ⟨hj.blank.2, hps, (List.nodup_cons.1 hnd).2, fun hx => hn (List.mem_cons_of_mem _ hx)⟩

theorem Kept.announced {order : List N} (h : Kept nodes c) (hp : (c n).part = some ts)
    (hph : ts.phase = .announce []) (hnd : nodes.Nodup) (horder : order.Perm (nodes.erase n)) :
    Kept nodes (c.setPart n { ts with phase := .getPartitions order }) := by
  have hj : Joins c n ts := h.joins n ts hp (by rw [hph]; exact nofun)
  have hl := hj.learned
  unfold Part.Learned at hl
  simp only [hph] at hl
  refine h.join_self hp hj hj.blank.1 (fun k => ⟨?_, trivial⟩) ?_ nofun
  · rw [hph]
    exact List.not_mem_nil
  · intro _
    refine ⟨hj.blank.2, hl.1, ?_, ?_⟩
    · intro hx
      exact ((List.Nodup.mem_erase_iff hnd).1 (horder.mem_iff.1 hx)).1 rfl
    · intro m hm hs
      exact horder.mem_iff.2 ((List.Nodup.mem_erase_iff hnd).2 ⟨hm, h.among m hs⟩)

/-- What the partition that answers first tells the newcomer. -/
theorem Kept.fetched {q : Part N R T} (h : Kept nodes c)
    (hj : Joins c n ts) (hmn : m ≠ n) (hq : (c m).part = some q) :
    ((q.partitions ++ [m]).filter (· ≠ n)).Nodup ∧
      ∀ x, x ∈ (q.partitions ++ [m]).filter (· ≠ n) ↔ x ≠ n ∧ (c x).part.isSome := by
  obtain ⟨hnd, hmem⟩ := h.lists m q hq (hj.others m q hmn hq)
  have hm : m ∉ q.partitions := fun hx => ((hmem m).1 hx).1 rfl
  refine ⟨List.Nodup.filter _ (List.nodup_append.2 ⟨hnd, List.nodup_singleton m, ?_⟩), fun x => ?_⟩
  · intro a ha b hb hab
    rw [List.mem_singleton.1 hb] at hab
    exact hm (hab ▸ ha)
  · rw [List.mem_filter, List.mem_append, List.mem_singleton, hmem x, decide_eq_true_eq, and_comm]
    refine and_congr_right fun hxn => ⟨?_, fun hs => ?_⟩
    · rintro (⟨-, q', hq', -⟩ | rfl)
      · rw [hq']
        rfl
      · rw [hq]
        rfl
    · by_cases hxm : x = m
      · exact .inr hxm
      · obtain ⟨q', hq'⟩ := Option.isSome_iff_exists.1 hs
        refine .inl ⟨hxm, q', hq', ?_⟩
        rw [hj.others x q' hxn hq']
        trivial

theorem Kept.getPartitions {q : Part N R T} {todo : List N} (h : Kept nodes c)
    (hp : (c n).part = some ts) (hph : ts.phase = .getPartitions (m :: todo))
    (hq : (c m).part = some q) :
    Kept nodes (c.setPart n { ts with
      partitions := ts.partitions ++ (q.partitions ++ [m]).filter (· ≠ n),
      phase := .getRequests (ts.partitions ++ (q.partitions ++ [m]).filter (· ≠ n)) }) := by
  have hj : Joins c n ts := h.joins n ts hp (by rw [hph]; exact nofun)
  have hl := hj.learned
  unfold Part.Learned at hl
  simp only [hph] at hl
  have hmn : m ≠ n := fun he => hl.2.1 (he ▸ List.mem_cons_self)
  refine h.join_self hp hj hj.blank.1 (fun k => ⟨by rw [hph]; trivial, trivial⟩) ?_ nofun
  intro _
  have hf := h.fetched hj hmn hq
  refine ⟨hj.blank.2, rfl, ?_⟩
  show (ts.partitions ++ _).Nodup ∧ ∀ x, x ∈ ts.partitions ++ _ ↔ _
  rw [hl.1, List.nil_append]
  exact hf

/-- The newcomer takes over what `m` has been asked for, and what `m` itself waits for. -/
theorem Kept.getRequests {q : Part N R T} {todo : List N} (h : Kept nodes c)
    (hp : (c n).part = some ts) (hph : ts.phase = .getRequests (m :: todo))
    (hq : (c m).part = some q) : Kept nodes (c.setPart n { ts with
      requests := ts.requests ++ q.getRequests m, phase := .idle }) := by
  have hj : Joins c n ts := h.joins n ts hp (by rw [hph]; exact nofun)
  have hl := hj.learned
  unfold Part.Learned at hl
  simp only [hph] at hl
  have hmn : m ≠ n := ((hl.2.2 m).1 (hl.1 ▸ List.mem_cons_self)).1
  have hqi := hj.others m q hmn hq
  have hown : ∀ k p, (q.blockedList.entries.map fun e => (m, e.2.pattern)).count (k, p) =
      if k = m then q.parked p else 0 := by
    intro k p
    unfold Part.parked
    rw [List.count, List.countP_map]
    split
    · rename_i hk
      subst hk
      exact List.countP_congr fun e _ => by simp
    · rename_i hk
      exact List.countP_eq_zero.2 fun e _ => by simp [Ne.symm hk]
  refine h.join_self hp hj hj.blank.1 (fun k => ⟨by rw [hph]; trivial, trivial⟩)
    (fun hne => absurd rfl hne) fun _ => ⟨hl.2.1, hl.2.2, ?_, ?_⟩
  · intro k hkn hk p
    show ((ts.requests ++ (q.requests ++ _)).count (k, p) : Int) = _
    rw [hj.blank.2, List.nil_append, List.count_append, hown]
    obtain ⟨q', hq'⟩ := Option.isSome_iff_exists.1 hk
    rw [debt_of_quiet hq' (hj.quiet k)]
    by_cases hkm : k = m
    · subst hkm
      rw [hq] at hq'
      cases hq'
      rw [if_pos rfl, List.count_eq_zero.2 (h.foreign k k q hq (.inl rfl) p), Nat.zero_add]
    · have h1 := h.books k m q hkm hk hq hqi p
      rw [debt_of_quiet hq' (hj.quiet k)] at h1
      rw [if_neg hkm, Nat.add_zero, h1]
  · intro k p hor hx
    rw [show ({ ts with requests := ts.requests ++ q.getRequests m, phase := .idle } :
      Part N R T).requests = ts.requests ++ q.getRequests m from rfl, hj.blank.2,
      List.nil_append] at hx
    rcases List.mem_append.1 hx with hx | hx
    · rcases hor with rfl | hnone
      · have h1 := h.books k m q (Ne.symm hmn) (by rw [hp]; rfl) hq hqi p
        rw [debt_of_quiet hp (hj.quiet k)] at h1
        unfold Part.parked at h1
        rw [hj.blank.1] at h1
        have h2 := List.count_pos_iff.2 hx
        simp only [List.countP_nil] at h1
        omega
      · exact h.foreign k m q hq (.inr hnone) p hx
    · obtain ⟨e, -, he⟩ := List.mem_map.1 hx
      cases he
      rcases hor with rfl | hnone
      · exact hmn rfl
      · rw [hq] at hnone
        cases hnone

/-- A newcomer that is told nothing is alone. -/
theorem Kept.getRequests_nil (h : Kept nodes c) (hp : (c n).part = some ts)
    (hph : ts.phase = .getRequests []) : Kept nodes (c.setPart n { ts with phase := .idle }) := by
  have hj : Joins c n ts := h.joins n ts hp (by rw [hph]; exact nofun)
  have hl := hj.learned
  unfold Part.Learned at hl
  simp only [hph] at hl
  refine h.join_self hp hj hj.blank.1 (fun k => ⟨by rw [hph]; trivial, trivial⟩)
    (fun hne => absurd rfl hne) fun _ => ⟨hl.2.1, hl.2.2, ?_, ?_⟩
  · intro k hkn hk p
    have h1 := (hl.2.2 k).2 ⟨hkn, hk⟩
    rw [← hl.1] at h1
    cases h1
  · intro k p _ hx
    rw [show ({ ts with phase := .idle } : Part N R T).requests = ts.requests from rfl,
      hj.blank.2] at hx
    cases hx

theorem Kept.getPartitions_nil (h : Kept nodes c) (hp : (c n).part = some ts)
    (hph : ts.phase = .getPartitions []) :
    Kept nodes (c.setPart n { ts with phase := .getRequests ts.partitions }) := by
  have hj : Joins c n ts := h.joins n ts hp (by rw [hph]; exact nofun)
  have hl := hj.learned
  unfold Part.Learned at hl
  simp only [hph] at hl
  refine h.join_self hp hj hj.blank.1 (fun k => ⟨by rw [hph]; trivial, trivial⟩) ?_ nofun
  intro _
  refine ⟨hj.blank.2, rfl, ?_⟩
  show ts.partitions.Nodup ∧ ∀ x, x ∈ ts.partitions ↔ _
  rw [hl.1]
  refine ⟨List.nodup_nil, fun x => ⟨nofun, fun ⟨hxn, hs⟩ => hl.2.2 x hxn hs⟩⟩

theorem Kept.getPartitions_skip {todo : List N} (h : Kept nodes c) (hp : (c n).part = some ts)
    (hph : ts.phase = .getPartitions (m :: todo)) (hm : (c m).part = none) :
    Kept nodes (c.setPart n { ts with phase := .getPartitions todo }) := by
  have hj : Joins c n ts := h.joins n ts hp (by rw [hph]; exact nofun)
  have hl := hj.learned
  unfold Part.Learned at hl
  simp only [hph] at hl
  refine h.join_self hp hj hj.blank.1 (fun k => ⟨by rw [hph]; trivial, trivial⟩) ?_ nofun
  intro _
  refine ⟨hj.blank.2, hl.1, fun hx => hl.2.1 (List.mem_cons_of_mem _ hx), fun x hxn hs => ?_⟩
  rcases List.mem_cons.1 (hl.2.2 x hxn hs) with rfl | hx
  · rw [hm] at hs
    cases hs
  · exact hx

/-! ## Every step -/

theorem Kept.init : Kept nodes (Cluster.init : Cluster N R T) where
  sound _ := ⟨nofun, fun _ => Nat.zero_le _, nofun⟩
  among _ := nofun
  lists _ _ := nofun
  books _ _ _ _ := nofun
  foreign _ _ _ := nofun
  joins _ _ := nofun

theorem Kept.run (M : Matcher T) {verdict : Bool} {c' : Cluster N R T} (h : Kept nodes c)
    (ho : (Event.run n t verdict).Orderly M c) (ht : t ∈ (c n).tasks)
    (hs : c.run M n t verdict = some c') : Kept nodes c' := by
  obtain ⟨hset, ho⟩ := ho
  unfold Cluster.run at hs
  split at hs
  · rename_i s' hrun
    cases hs
    refine h.move hset (Moves.run M (h.sound n) (h.not_mem_partitions hset) ht ?_ ?_ hrun)
    · rintro tid w ts rfl hp
      exact ho.imp_right fun hne => hne ts hp
    · rintro tid p rfl
      exact ho
  · exact h.sendRequest M hset ht hs
  · exact h.sendCancel hset ht ho hs
  · cases hs

theorem Kept.next (M : Matcher T) {e : Event N R T} {c' : Cluster N R T} (hnd : nodes.Nodup)
    (h : Kept nodes c) (ho : e.Orderly M c) (hp : e.Proper nodes c)
    (hs : c.next M e = some c') : Kept nodes c' := by
  cases e with
  | request n tid w =>
    cases hs
    refine h.move ho (Moves.spawn (t := .read tid w) (h.sound n) trivial (fun _ _ => rfl)
      (fun r => ?_) _ fun r hr => List.mem_cons_of_mem _ hr)
    by_cases hr : tid = r
    · subst hr
      rw [hp.2]
      simp [Task.holds]
    · simpa [Task.holds, hr] using (h.sound n).once r
  | out n tup =>
    obtain ⟨ts, hts, hs⟩ := Option.bind_eq_some_iff.1 hs
    rw [if_pos (ho n ts hts)] at hs
    cases hs
    exact h.move ho (Moves.outTuple M tup (h.sound n) hts (by simp) (fun _ => rfl) fun _ _ => rfl)
  | rehash n d =>
    obtain ⟨ts, hts, hs⟩ := Option.bind_eq_some_iff.1 hs
    cases hs
    exact h.move ho (Moves.rehash (h.sound n) hts (hp ts hts))
  | depart n tids =>
    cases hs
    exact h.move ho.1 (Moves.depart (h.sound n) ho.2)
  | recheck n =>
    cases hs
    exact h.move ho (Moves.spawn (t := .check) (h.sound n) trivial (fun _ _ => rfl)
      (h.sound n).once _ fun _ hr => hr)
  | run n t verdict =>
    change (if t ∈ (c n).tasks then c.run M n t verdict else none) = some c' at hs
    split at hs
    · rename_i ht
      exact h.run M ho ht hs
    · cases hs
  | create n order =>
    change (if (c n).part.isNone then some (c.setPart n { phase := .announce order }) else none) =
      some c' at hs
    split at hs
    · rename_i hnone
      cases hs
      exact h.create ho (Option.isNone_iff_eq_none.1 hnone) hp.1 hnd hp.2
    · cases hs
  | announce n =>
    obtain ⟨ts, hts, hs⟩ := Option.bind_eq_some_iff.1 hs
    split at hs
    · rename_i m todo hph
      split at hs
      · cases hs
      · rename_i hmn
        cases hs
        exact h.announce hts hph hmn
    · cases hs
  | announced n order =>
    obtain ⟨ts, hts, hs⟩ := Option.bind_eq_some_iff.1 hs
    split at hs
    · rename_i hph
      cases hs
      exact h.announced hts hph hnd hp
    · cases hs
  | getPartitions n =>
    obtain ⟨ts, hts, hs⟩ := Option.bind_eq_some_iff.1 hs
    split at hs
    · rename_i hph
      cases hs
      exact h.getPartitions_nil hts hph
    · rename_i m todo hph
      cases hs
      cases hm : (c m).part with
      | none => exact h.getPartitions_skip hts hph hm
      | some q => exact h.getPartitions hts hph hm
    · cases hs
  | getRequests n =>
    obtain ⟨ts, hts, hs⟩ := Option.bind_eq_some_iff.1 hs
    split at hs
    · rename_i hph
      cases hs
      exact h.getRequests_nil hts hph
    · rename_i m todo hph
      split at hs
      · rename_i hm
        have hl := (h.joins n ts hts (by rw [hph]; simp)).learned
        unfold Part.Learned at hl
        simp only [hph] at hl
        have h1 := ((hl.2.2 m).1 (hl.1 ▸ List.mem_cons_self)).2
        rw [hm] at h1
        cases h1
      · rename_i q hm
        split at hs
        · cases hs
          exact h.getRequests hts hph hm
        · cases hs
    · cases hs

/-- When nothing is under way, what is owed is what is blocked. -/
theorem Kept.accurate (h : Kept nodes c) (hq : c.Quiescent) : c.Accurate := by
  intro m ts hm n hnm p
  unfold Node.waiting
  cases hn : (c n).part with
  | none => exact List.count_eq_zero.2 (h.foreign n m ts hm (.inr hn) p)
  | some q =>
    have h1 := h.books n m ts hnm (by rw [hn]; rfl) hm (hq.1 m ts hm) p
    rw [debt_of_quiet hn (hq.2 n)] at h1
    have h2 : q.blockedList.entries.countP
        (fun e => decide (e.2.pattern = p ∧ e.1 ∈ (c n).blockedThreads)) = q.parked p := by
      refine List.countP_congr fun e he => ?_
      simp [(h.sound n).kept q hn e he]
    show ts.requests.count (n, p) = q.blockedList.entries.countP _
    rw [h2]
    omega

/-- In a run whose steps are all orderly, every partition has one request for each thread
that is blocked at another node, and nothing else, whenever nothing is under way. -/
theorem requests_accurate (M : Matcher T) (hnd : nodes.Nodup) {tr : List (Cluster N R T × Event N R T)}
    (h : Run (fun c e c' => e.Proper nodes c ∧ c.next M e = some c') Cluster.init tr c)
    (ho : ∀ x ∈ tr, x.2.Orderly M x.1) :
    Throughout (fun c => c.Quiescent → c.Accurate) tr c := by
  have hkept : Throughout (Kept nodes) tr c :=
    h.throughout (C := fun c e => e.Orderly M c)
      (fun c e c' hk ho hs => hk.next M hnd ho hs.1 hs.2) Kept.init ho
  exact ⟨fun x hx hq => (hkept.1 x hx).accurate hq, fun hq => hkept.2.accurate hq⟩

/-- Tuples of one number. -/
def numbers : Matcher Nat where
  doesMatch t templ := if t = templ then .ok t else .error .noTupleMatch
  len _ := 1
  both t _ := t

/-- Two nodes join one after the other, and thread 7 of the first parks in an `in`. -/
def park : List (Event Bool Nat Nat) :=
  [.create false [true], .announce false, .announced false [true], .getPartitions false,
    .getPartitions false, .getRequests false,
    .create true [false], .announce true, .announced true [false], .getPartitions true,
    .getRequests true,
    .request false 7 ⟨5, false, true⟩, .run false (.read 7 ⟨5, false, true⟩) false,
    .run false (.addTuples 5) false, .run false (.request 5 [true] []) false,
    .run false (.request 5 [] []) false, .run false (.outs []) false, .run false .check false]

/-- Its tuple is put in. -/
def wake : List (Event Bool Nat Nat) :=
  [.out false 5, .run false (.returnTuple 7 5) false, .run false (.withdraw 5) false,
    .run false (.cancel 5 [true]) false, .run false (.cancel 5 []) false]

def Cluster.requestsAt (c : Cluster Bool Nat Nat) (n : Bool) : Option (List (Bool × Nat)) :=
  (c n).part.map Part.requests

theorem requests_accurate_park : ∃ c, exec? (Cluster.next numbers) .init (park ++ wake) = some c ∧
    c.Quiescent ∧ c.requestsAt true = some [] ∧
    Throughout (fun c : Cluster Bool Nat Nat => c.Quiescent → c.Accurate)
      (trace? (Cluster.next numbers) .init (park ++ wake)) c := by
  have hw : (exec? (Cluster.next numbers) .init (park ++ wake)).any
      (fun c => decide (c.Quiescent ∧ c.requestsAt true = some [])) := by decide +kernel
  obtain ⟨c, hexec, hw⟩ := (Option.any_eq_true _ _).1 hw
  obtain ⟨hq, hreq⟩ := of_decide_eq_true hw
  obtain ⟨hr, -⟩ := Run.of_trace? (P := fun c e => e.Proper [false, true] c) (by decide +kernel) hexec
  exact ⟨c, hexec, hq, hreq, requests_accurate numbers (by decide) hr (by decide +kernel)⟩

/-- The process of the parked thread leaves, and its request stays. -/
theorem requests_stale : ∃ (tr : List (Cluster Bool Nat Nat × Event Bool Nat Nat))
    (c : Cluster Bool Nat Nat), Run (fun c e c' => Event.Proper [false, true] c e ∧
      c.next numbers e = some c') Cluster.init tr c ∧ c.Quiescent ∧ ¬ c.Accurate := by
  have hw : (exec? (Cluster.next numbers) .init (park ++ [.depart false [7]])).any
      (fun c => decide (c.Quiescent ∧ c.requestsAt true = some [(false, 5)] ∧
        (c false).waiting 5 = 0)) := by decide +kernel
  obtain ⟨c, hexec, hw⟩ := (Option.any_eq_true _ _).1 hw
  obtain ⟨hq, hreq, hwait⟩ := of_decide_eq_true hw
  obtain ⟨hr, -⟩ := Run.of_trace? (P := fun c e => e.Proper [false, true] c) (by decide +kernel) hexec
  refine ⟨_, c, hr, hq, fun ha => ?_⟩
  obtain ⟨ts, hts, hreq⟩ := Option.map_eq_some_iff.1 hreq
  have h1 := ha true ts hts false (by decide) 5
  rw [hreq, hwait] at h1
  exact absurd h1 (by decide)

end PyLinda.Requests
