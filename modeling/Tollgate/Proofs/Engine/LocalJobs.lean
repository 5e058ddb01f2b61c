import Tollgate.Model.Engine.LocalJobs

/-! # The lookups of one section

The two maps of the waiting lookups stay inverse to each other, ids only grow, and the limits hold.
Whatever a section does with a query, it is afterwards either waiting or among those that failed, and
no other query is touched: the queries that wait or have failed are exactly those from before and those
of the batch.
-/

namespace Tollgate.Engine

open List

theorem LocalJobs.wf_empty : LocalJobs.empty.Wf :=
  ⟨fun _ _ => ⟨nofun, nofun⟩, nofun, Nat.zero_le _, nofun⟩

theorem LocalJobs.Wf.unused {jobs : LocalJobs} (wf : jobs.Wf) : jobs.waiting.lookup jobs.nextId = none := by
  cases found : jobs.waiting.lookup jobs.nextId with
  | none => rfl
  | some lookup => exact absurd (wf.fresh _ _ found) (Nat.lt_irrefl _)

section Remove

variable {jobs after : LocalJobs} {id : ℕ} {lookup : LocalLookup}

theorem remove_eq_some_iff : jobs.remove id = some (lookup, after) ↔ jobs.waiting.lookup id = some lookup ∧
    after = ⟨jobs.nextId, jobs.waiting.erase id, jobs.byQuestion.erase lookup.question⟩ := by
  simp only [LocalJobs.remove, Option.bind_eq_bind, Option.bind_eq_some_iff, Option.some.injEq, Prod.mk.injEq]
  constructor
  · rintro ⟨other, found, rfl, rfl⟩
    exact ⟨found, rfl⟩
  · rintro ⟨found, rfl⟩
    exact ⟨lookup, found, rfl, rfl⟩

theorem remove_wf (wf : jobs.Wf) (removed : jobs.remove id = some (lookup, after)) : after.Wf := by
  obtain ⟨found, rfl⟩ := remove_eq_some_iff.mp removed
  refine ⟨fun question other => ?_, fun other left stays => ?_, ?_, fun other left stays => ?_⟩
  · rw [AList.lookup_erase_eq_ite, AList.lookup_erase_eq_ite]
    constructor
    · intro indexed
      split at indexed
      · cases indexed
      · next different =>
        obtain ⟨left, waits, rfl⟩ := (wf.inverse _ _).mp indexed
        refine ⟨left, ?_, rfl⟩
        rw [if_neg]
        · exact waits
        · rintro rfl
          cases found.symm.trans waits
          exact different rfl
    · rintro ⟨left, waits, rfl⟩
      split at waits
      · cases waits
      · next different =>
        rw [if_neg]
        · exact (wf.inverse _ _).mpr ⟨left, waits, rfl⟩
        · intro same
          have first := (wf.inverse _ _).mpr ⟨left, waits, same⟩
          have second := (wf.inverse _ _).mpr ⟨lookup, found, rfl⟩
          exact different (Option.some.inj (first.symm.trans second))
  · rw [AList.lookup_erase_eq_ite] at stays
    split at stays
    · cases stays
    · exact wf.fresh _ _ stays
  · have count := (AList.entries_perm found).length_eq
    rw [length_cons] at count
    have bound := wf.few
    change (jobs.waiting.erase id).entries.length ≤ localPending
    change jobs.waiting.entries.length ≤ localPending at bound
    omega
  · rw [AList.lookup_erase_eq_ite] at stays
    split at stays
    · cases stays
    · exact wf.shared _ _ stays

theorem remove_queries (removed : jobs.remove id = some (lookup, after)) :
    jobs.queries.Perm (lookup.jobs ++ after.queries) := by
  obtain ⟨found, rfl⟩ := remove_eq_some_iff.mp removed
  exact (AList.entries_perm found).flatMap_right _

end Remove

theorem expire_wf {jobs : LocalJobs} (wf : jobs.Wf) (ids : List ℕ) : (jobs.expire ids).2.Wf := by
  induction ids generalizing jobs with
  | nil => exact wf
  | cons id rest ih =>
    rw [LocalJobs.expire]
    split
    · next removed => exact ih (remove_wf wf removed)
    · exact ih wf

theorem expire_nextId (jobs : LocalJobs) (ids : List ℕ) : (jobs.expire ids).2.nextId = jobs.nextId := by
  induction ids generalizing jobs with
  | nil => rfl
  | cons id rest ih =>
    rw [LocalJobs.expire]
    split
    · next removed =>
      obtain ⟨-, rfl⟩ := remove_eq_some_iff.mp removed
      exact ih _
    · exact ih jobs

theorem expire_queries (jobs : LocalJobs) (ids : List ℕ) :
    jobs.queries.Perm ((jobs.expire ids).1 ++ (jobs.expire ids).2.queries) := by
  induction ids generalizing jobs with
  | nil => exact .refl _
  | cons id rest ih =>
    rw [LocalJobs.expire]
    split
    · next lookup after removed =>
      refine (remove_queries removed).trans ?_
      dsimp only
      rw [append_assoc]
      exact (ih after).append_left _
    · exact ih jobs

/-- Expiry only takes lookups away. -/
theorem lookup_of_expire {jobs : LocalJobs} {ids : List ℕ} {id : ℕ} {lookup : LocalLookup}
    (left : (jobs.expire ids).2.waiting.lookup id = some lookup) : jobs.waiting.lookup id = some lookup := by
  induction ids generalizing jobs with
  | nil => exact left
  | cons first rest ih =>
    rw [LocalJobs.expire] at left
    split at left
    · next removed =>
      obtain ⟨-, rfl⟩ := remove_eq_some_iff.mp removed
      have stays := ih left
      rw [AList.lookup_erase_eq_ite] at stays
      split at stays
      · cases stays
      · exact stays
    · exact ih left

/-- What one query of a batch does to the section: it fails, joins a lookup or starts one. -/
inductive Section.Added (clock : ℕ) (work : Section) (query : Query) : Section → Prop where
  | failed : Added clock work query (work.fail query)
  | joined {question : LocalQuestion} {id : ℕ} {lookup : LocalLookup} (asks : Section.question query = some question)
      (indexed : work.jobs.byQuestion.lookup question = some id) (found : work.jobs.waiting.lookup id = some lookup)
      (room : lookup.jobs.length < localJobsPerLookup) :
      Added clock work query { work with jobs := { work.jobs with
        waiting := work.jobs.waiting.insert id { lookup with jobs := lookup.jobs ++ [query] } } }
  | launched {question : LocalQuestion} (asks : Section.question query = some question)
      (new : work.jobs.byQuestion.lookup question = none) (room : work.jobs.waiting.size < localPending) :
      Added clock work query (work.launch question clock query)

namespace Section

variable {resolver : Bool} {clock : ℕ} {work next : Section} {query : Query}

theorem add_cases (added : add resolver clock work query = some next) : Added clock work query next := by
  unfold add at added
  split at added
  · obtain rfl := Option.some.inj added
    exact .failed
  · obtain ⟨question, asks, added⟩ := Option.bind_eq_some_iff.mp added
    split at added
    · next id indexed =>
      unfold join at added
      obtain ⟨lookup, found, added⟩ := Option.bind_eq_some_iff.mp added
      split at added
      · next room =>
        obtain rfl := Option.some.inj added
        exact .joined asks indexed found room
      · obtain rfl := Option.some.inj added
        exact .failed
    · next new =>
      split at added
      · obtain rfl := Option.some.inj added
        exact .failed
      · next room =>
        obtain rfl := Option.some.inj added
        exact .launched asks new (not_le.mp room)

/-- The lookup of an indexed question is there, so adding a query does not panic. -/
theorem add_isSome (wf : work.jobs.Wf) (asks : (question query).isSome) : (add resolver clock work query).isSome := by
  obtain ⟨asked, is⟩ := Option.isSome_iff_exists.mp asks
  unfold add
  split
  · rfl
  · simp only [is, Option.bind_eq_bind, Option.bind_some]
    split
    · next id indexed =>
      obtain ⟨lookup, found, -⟩ := (wf.inverse _ _).mp indexed
      simp only [join, found, Option.bind_eq_bind, Option.bind_some]
      split <;> rfl
    · split <;> rfl

theorem Added.wf (added : Added clock work query next) (wf : work.jobs.Wf) : next.jobs.Wf := by
  cases added with
  | failed => exact wf
  | @joined asked id lookup asks indexed found room =>
    refine ⟨fun question other => ?_, fun other left stays => ?_, ?_, fun other left stays => ?_⟩
    · rw [wf.inverse, AList.lookup_insert_eq_ite]
      split
      · next same =>
        subst same
        constructor
        · rintro ⟨left, waits, rfl⟩
          cases found.symm.trans waits
          exact ⟨_, rfl, rfl⟩
        · rintro ⟨left, waits, rfl⟩
          cases waits
          exact ⟨lookup, found, rfl⟩
      · rfl
    · rw [AList.lookup_insert_eq_ite] at stays
      split at stays
      · next same =>
        rw [same]
        exact wf.fresh _ _ found
      · exact wf.fresh _ _ stays
    · have count := (AList.entries_perm found).length_eq
      have bound := wf.few
      rw [length_cons] at count
      change (work.jobs.waiting.insert id _).entries.length ≤ localPending
      change work.jobs.waiting.entries.length ≤ localPending at bound
      rw [AList.entries_insert_of_lookup, length_cons]
      omega
    · rw [AList.lookup_insert_eq_ite] at stays
      split at stays
      · cases stays
        dsimp only
        rw [length_append, length_singleton]
        omega
      · exact wf.shared _ _ stays
  | @launched asked asks new room =>
    have unused := wf.unused
    refine ⟨fun question other => ?_, fun other left stays => ?_, ?_, fun other left stays => ?_⟩
    · simp only [launch, AList.lookup_insert_eq_ite]
      constructor
      · intro indexed
        split at indexed
        · next same =>
          obtain rfl := Option.some.inj indexed
          exact ⟨_, if_pos rfl, same.symm⟩
        · obtain ⟨left, waits, is⟩ := (wf.inverse _ _).mp indexed
          refine ⟨left, ?_, is⟩
          rw [if_neg (Nat.ne_of_lt (wf.fresh _ _ waits))]
          exact waits
      · rintro ⟨left, waits, rfl⟩
        split at waits
        · next same =>
          cases waits
          rw [if_pos rfl, same]
        · have indexed := (wf.inverse _ _).mpr ⟨left, waits, rfl⟩
          rw [if_neg]
          · exact indexed
          · intro same
            rw [same, new] at indexed
            cases indexed
    · simp only [launch, AList.lookup_insert_eq_ite] at stays ⊢
      split at stays
      · next same => omega
      · exact Nat.lt_succ_of_lt (wf.fresh _ _ stays)
    · change (work.jobs.waiting.insert work.jobs.nextId _).entries.length ≤ localPending
      rw [AList.entries_insert_of_new unused, length_cons]
      exact room
    · simp only [launch, AList.lookup_insert_eq_ite] at stays
      split at stays
      · cases stays
        exact ⟨Nat.le_refl 1, (by decide : 1 ≤ localJobsPerLookup)⟩
      · exact wf.shared _ _ stays

/-- A query that was added waits or has failed, and every other query is where it was. -/
theorem Added.queries (added : Added clock work query next) (wf : work.jobs.Wf) :
    (next.failed ++ next.jobs.queries).Perm (query :: (work.failed ++ work.jobs.queries)) := by
  rw [perm_iff_count]
  intro other
  cases added with
  | failed =>
    simp only [fail, count_append, count_cons, count_nil]
    omega
  | joined asks indexed found room =>
    have before := ((AList.entries_perm found).flatMap_right fun entry => entry.2.jobs).count_eq other
    simp only [flatMap_cons, count_append] at before
    simp only [LocalJobs.queries, AList.entries_insert_of_lookup, flatMap_cons, count_append, count_cons, count_nil]
    omega
  | launched asks new room =>
    simp only [launch, LocalJobs.queries, AList.entries_insert_of_new wf.unused, flatMap_cons, count_append, count_cons,
      count_nil]
    omega

/-- The ids of the calls to make are the ones that were given out since `first`. -/
def Numbered (first : ℕ) (work : Section) : Prop :=
  first ≤ work.jobs.nextId ∧ work.calls.map ResolveCall.id = range' first (work.jobs.nextId - first)

theorem Added.numbered {first : ℕ} (added : Added clock work query next) (numbered : Numbered first work) :
    Numbered first next := by
  cases added with
  | failed => exact numbered
  | joined => exact numbered
  | launched =>
    obtain ⟨above, same⟩ := numbered
    refine ⟨Nat.le_succ_of_le above, ?_⟩
    have length : work.jobs.nextId + 1 - first = (work.jobs.nextId - first) + 1 := by omega
    simp only [launch, map_append, map_cons, map_nil, same, length, range'_concat]
    congr 2
    omega

variable {queries : List Query}

theorem fold_wf (wf : work.jobs.Wf) (ran : queries.foldlM (add resolver clock) work = some next) : next.jobs.Wf := by
  induction queries generalizing work with
  | nil => exact Option.some.inj ran ▸ wf
  | cons query rest ih =>
    obtain ⟨between, added, ran⟩ := Option.bind_eq_some_iff.mp ran
    exact ih ((add_cases added).wf wf) ran

theorem fold_queries (wf : work.jobs.Wf) (ran : queries.foldlM (add resolver clock) work = some next) :
    (next.failed ++ next.jobs.queries).Perm (queries ++ (work.failed ++ work.jobs.queries)) := by
  induction queries generalizing work with
  | nil => exact Option.some.inj ran ▸ .refl _
  | cons query rest ih =>
    obtain ⟨between, added, ran⟩ := Option.bind_eq_some_iff.mp ran
    refine (ih ((add_cases added).wf wf) ran).trans ?_
    exact (((add_cases added).queries wf).append_left rest).trans perm_middle

theorem fold_numbered {first : ℕ} (numbered : Numbered first work)
    (ran : queries.foldlM (add resolver clock) work = some next) : Numbered first next := by
  induction queries generalizing work with
  | nil => exact Option.some.inj ran ▸ numbered
  | cons query rest ih =>
    obtain ⟨between, added, ran⟩ := Option.bind_eq_some_iff.mp ran
    exact ih ((add_cases added).numbered numbered) ran

theorem fold_isSome (wf : work.jobs.Wf) (asks : ∀ query ∈ queries, (question query).isSome) :
    (queries.foldlM (add resolver clock) work).isSome := by
  induction queries generalizing work with
  | nil => rfl
  | cons query rest ih =>
    obtain ⟨here, later⟩ := forall_mem_cons.mp asks
    obtain ⟨between, added⟩ := Option.isSome_iff_exists.mp (@add_isSome resolver clock _ _ wf here)
    rw [foldlM_cons, added]
    exact ih ((add_cases added).wf wf) later

variable {jobs : LocalJobs} {found : List ℕ}

theorem run_wf (wf : jobs.Wf) (ran : run jobs resolver clock found queries = some next) : next.jobs.Wf :=
  fold_wf (expire_wf wf found) ran

/-- After a section every query of the batch and every query that waited waits or has failed. -/
theorem run_queries (wf : jobs.Wf) (ran : run jobs resolver clock found queries = some next) :
    (next.failed ++ next.jobs.queries).Perm (queries ++ jobs.queries) :=
  (fold_queries (expire_wf wf found) ran).trans ((expire_queries jobs found).symm.append_left queries)

theorem run_numbered (ran : run jobs resolver clock found queries = some next) : Numbered jobs.nextId next := by
  refine fold_numbered ?_ ran
  rw [Numbered, expire_nextId]
  exact ⟨Nat.le_refl _, by rw [Nat.sub_self]; rfl⟩

theorem run_isSome (wf : jobs.Wf) (asks : ∀ query ∈ queries, (question query).isSome) :
    (run jobs resolver clock found queries).isSome :=
  fold_isSome (expire_wf wf found) asks

end Section

end Tollgate.Engine
