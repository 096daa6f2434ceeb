import OsslScripts.Mprofile.Chains

namespace OsslScripts
namespace Mprofile

/-!
# Walking the chains

The links that `build_chains` leaves in a log with increasing ids, in the terms
of the reader: by ids rather than by positions.  A link always leads to a
larger id, and the record with id `n` stands at position `n - 1` or before it,
so that the reader's walks along `next_id` come to an end whether or not the
ids have gaps.
-/

/-- A log as it is handed to `build_chains`. -/
structure FreshLog (log : List MprofileRecord) : Prop where
  positive : forall r, r ∈ log -> 0 < r.mprId
  increasing : log.Pairwise (fun a b => a.mprId < b.mprId)
  unlinked : forall r, r ∈ log -> r.mprPrevId = 0 ∧ r.mprNextId = 0

/-- The record ids are 1, 2, 3 and so on. -/
def GapFree (log : List MprofileRecord) : Prop :=
  forall i, i < log.length -> (recordAt log i).mprId = i + 1

/-- What holds of a log and of its linked version. -/
structure CorrectlyLinked (log linked : List MprofileRecord) : Prop where
  sameRecords : linked.map MprofileRecord.bare = log
  links : forall i j, i < log.length -> j < log.length ->
    ((recordAt linked i).mprNextId = (recordAt linked j).mprId ↔
        (recordAt linked j).mprPrevId = (recordAt linked i).mprId) ∧
      ((recordAt linked j).mprPrevId = (recordAt linked i).mprId ↔ LinkedBy log j i)
  increases : forall i j, i < log.length -> j < log.length ->
    (recordAt linked i).mprNextId = (recordAt linked j).mprId ->
    (recordAt linked i).mprId < (recordAt linked j).mprId
  onePredecessor : forall i i' j, i < log.length -> i' < log.length -> j < log.length ->
    (recordAt linked i).mprNextId = (recordAt linked j).mprId ->
    (recordAt linked i').mprNextId = (recordAt linked j).mprId -> i = i'
  oneSuccessor : forall i j j', i < log.length -> j < log.length -> j' < log.length ->
    (recordAt linked j).mprPrevId = (recordAt linked i).mprId ->
    (recordAt linked j').mprPrevId = (recordAt linked i).mprId -> j = j'
  nextExists : forall i, (recordAt linked i).mprNextId ≠ 0 -> Exists fun j =>
    j < log.length ∧ (recordAt linked i).mprNextId = (recordAt linked j).mprId
  prevExists : forall j, (recordAt linked j).mprPrevId ≠ 0 -> Exists fun i =>
    i < log.length ∧ (recordAt linked j).mprPrevId = (recordAt linked i).mprId
  allocFirst : forall r, r ∈ linked -> r.mprState = .alloc -> r.mprPrevId = 0
  nullFreeFirst : forall r, r ∈ linked -> r.mprState = .free -> r.mprMem = 0 -> r.mprPrevId = 0
  freeLast : forall r, r ∈ linked -> r.mprState = .free -> r.mprNextId = 0
  chainsEnd : forall doc r, doc.allocations = linked -> r ∈ linked ->
    (MProfile.ofDocument doc).getChain linked.length r ≠ .error .outOfFuel
  chainsReturn : forall doc r, doc.allocations = linked -> GapFree log -> r ∈ linked ->
    Exists fun chain => (MProfile.ofDocument doc).getChain linked.length r = .ok chain ∧
      chain.IsChain (fun a b => a.mprNextId = b.mprId ∧ b.mprPrevId = a.mprId)

section Ids

variable {log linked : List MprofileRecord} {i j : Nat}

theorem FreshLog.bare (fresh : FreshLog log) : forall r, r ∈ log -> r.bare = r := by
  intro r member
  have parts := fresh.unlinked r member
  rw [MprofileRecord.bare, ← parts.1]
  cases r
  simp only at parts
  rw [parts.1, parts.2]

theorem recordAt_mem (inside : i < log.length) : recordAt log i ∈ log := by
  rw [recordAt, List.getD_eq_getElem _ _ inside]
  exact List.getElem_mem inside

theorem mem_recordAt {r : MprofileRecord} (member : r ∈ log) :
    Exists fun i => i < log.length ∧ recordAt log i = r := by
  rcases List.getElem_of_mem member with ⟨i, inside, same⟩
  exact ⟨i, inside, by rw [recordAt, List.getD_eq_getElem _ _ inside, same]⟩

theorem FreshLog.id_lt (fresh : FreshLog log) (before : i < j) (inside : j < log.length) :
    (recordAt log i).mprId < (recordAt log j).mprId := by
  rw [recordAt, recordAt, List.getD_eq_getElem _ _ inside,
    List.getD_eq_getElem _ _ (before.trans inside)]
  exact List.pairwise_iff_getElem.mp fresh.increasing i j (before.trans inside) inside before

theorem FreshLog.id_injective (fresh : FreshLog log) (insideI : i < log.length)
    (insideJ : j < log.length) (same : (recordAt log i).mprId = (recordAt log j).mprId) :
    i = j := by
  rcases Nat.lt_trichotomy i j with before | equal | after
  · exact absurd same (Nat.ne_of_lt (fresh.id_lt before insideJ))
  · exact equal
  · exact absurd same (Nat.ne_of_gt (fresh.id_lt after insideI))

/-- The ids grow at least as fast as the positions. -/
theorem FreshLog.position_lt_id (fresh : FreshLog log) (inside : i < log.length) :
    i < (recordAt log i).mprId := by
  induction i with
  | zero => exact fresh.positive _ (recordAt_mem inside)
  | succ i inductionHypothesis =>
      have below := inductionHypothesis (by omega)
      have step := fresh.id_lt (Nat.lt_add_one i) inside
      omega

theorem LinkedBy.lt_both (linkedBy : LinkedBy log j i) : i < log.length ∧ j < log.length :=
  ⟨linkedBy.lt.trans linkedBy.lt_length, linkedBy.lt_length⟩

/-- A forward link by id is a link of the log. -/
theorem Linked.next_iff (facts : Linked log linked) (fresh : FreshLog log)
    (insideJ : j < log.length) :
    (recordAt linked i).mprNextId = (recordAt linked j).mprId ↔ LinkedBy log j i := by
  constructor
  · intro next
    rw [facts.id j] at next
    by_cases linkedOn : Exists fun k => LinkedBy log k i
    · rcases linkedOn with ⟨k, linkedBy⟩
      rw [(facts.link k i linkedBy).2] at next
      exact fresh.id_injective linkedBy.lt_length insideJ next ▸ linkedBy
    · rw [facts.noNext i (fun k linkedBy => linkedOn ⟨k, linkedBy⟩)] at next
      exact absurd next (Nat.ne_of_lt (fresh.positive _ (recordAt_mem insideJ)))
  · intro linkedBy
    rw [facts.id j]
    exact (facts.link j i linkedBy).2

/-- A backward link by id is a link of the log. -/
theorem Linked.prev_iff (facts : Linked log linked) (fresh : FreshLog log)
    (insideI : i < log.length) :
    (recordAt linked j).mprPrevId = (recordAt linked i).mprId ↔ LinkedBy log j i := by
  constructor
  · intro prev
    rw [facts.id i] at prev
    by_cases linkedBack : Exists fun k => LinkedBy log j k
    · rcases linkedBack with ⟨k, linkedBy⟩
      rw [(facts.link j k linkedBy).1] at prev
      exact fresh.id_injective linkedBy.lt_both.1 insideI prev ▸ linkedBy
    · rw [facts.noPrev j (fun k linkedBy => linkedBack ⟨k, linkedBy⟩)] at prev
      exact absurd prev (Nat.ne_of_lt (fresh.positive _ (recordAt_mem insideI)))
  · intro linkedBy
    rw [facts.id i]
    exact (facts.link j i linkedBy).1

theorem Linked.next_exists (facts : Linked log linked) (next : (recordAt linked i).mprNextId ≠ 0) :
    Exists fun j => LinkedBy log j i ∧ (recordAt linked i).mprNextId = (recordAt log j).mprId := by
  by_contra none
  exact next (facts.noNext i (fun j linkedBy => none ⟨j, linkedBy, (facts.link j i linkedBy).2⟩))

theorem Linked.prev_exists (facts : Linked log linked) (prev : (recordAt linked j).mprPrevId ≠ 0) :
    Exists fun i => LinkedBy log j i ∧ (recordAt linked j).mprPrevId = (recordAt log i).mprId := by
  by_contra none
  exact prev (facts.noPrev j (fun i linkedBy => none ⟨i, linkedBy, (facts.link j i linkedBy).1⟩))

/-- Linking changes neither the address nor the kind of a record. -/
theorem Linked.recordAt_bare (facts : Linked log linked) (inside : i < linked.length) :
    (recordAt linked i).bare = recordAt log i := by
  have inLog : i < log.length := facts.length ▸ inside
  have same : (linked.map MprofileRecord.bare)[i]? = log[i]? := by rw [facts.bare]
  rw [List.getElem?_map, List.getElem?_eq_getElem inside, List.getElem?_eq_getElem inLog] at same
  rw [recordAt, recordAt, List.getD_eq_getElem _ _ inside, List.getD_eq_getElem _ _ inLog]
  exact Option.some.inj same

theorem consumed_eq (inside : i < log.length) : consumed log i = (recordAt log i).consumes := by
  rw [consumed, recordAt, List.getD_eq_getElem _ _ inside, List.getElem?_eq_getElem inside]
  rfl

theorem produced_eq (inside : i < log.length) : produced log i = (recordAt log i).produces := by
  rw [produced, recordAt, List.getD_eq_getElem _ _ inside, List.getElem?_eq_getElem inside]
  rfl

/-- A record that consumes nothing has no predecessor. -/
theorem Linked.prev_zero (facts : Linked log linked) {r : MprofileRecord} (member : r ∈ linked)
    (nothing : r.consumes = none) : r.mprPrevId = 0 := by
  rcases mem_recordAt member with ⟨j, inside, rfl⟩
  refine facts.noPrev j ?_
  rintro i ⟨x, consumes, -⟩
  rw [consumed_eq (facts.length ▸ inside), ← facts.recordAt_bare inside] at consumes
  exact absurd (nothing.symm.trans consumes) (by simp)

/-- A record that produces nothing has no successor. -/
theorem Linked.next_zero (facts : Linked log linked) {r : MprofileRecord} (member : r ∈ linked)
    (nothing : r.produces = none) : r.mprNextId = 0 := by
  rcases mem_recordAt member with ⟨i, inside, rfl⟩
  refine facts.noNext i ?_
  rintro j ⟨x, -, -, produces, -⟩
  rw [produced_eq (facts.length ▸ inside), ← facts.recordAt_bare inside] at produces
  exact absurd (nothing.symm.trans produces) (by simp)

end Ids

/-! ## The reader's walk -/

section Walk

variable {log linked : List MprofileRecord} {doc : Document} {i : Nat}

/-- What the reader finds under a non-zero `next_id`: a record further on. -/
theorem Linked.getMr_next (facts : Linked log linked) (fresh : FreshLog log)
    (saved : doc.allocations = linked) (next : (recordAt linked i).mprNextId ≠ 0)
    {found : MemRecord}
    (lookup : (MProfile.ofDocument doc).getMr (recordAt linked i).mprNextId = some found) :
    Exists fun k => i < k ∧ k < linked.length ∧ found.mr = recordAt linked k := by
  rcases MProfile.getMr_some lookup with ⟨positive, within, here⟩
  rcases facts.next_exists next with ⟨j, linkedBy, target⟩
  have further := fresh.position_lt_id linkedBy.lt_length
  have before := linkedBy.lt
  rw [saved] at within here
  refine ⟨(recordAt linked i).mprNextId - 1, by omega, by omega, ?_⟩
  rw [recordAt, List.getD_eq_getElem?_getD, here, Option.getD_some]

/-- A walk has fuel enough for the positions that are left. -/
theorem Linked.getChain_ends (facts : Linked log linked) (fresh : FreshLog log)
    (saved : doc.allocations = linked) (fuel i : Nat) (inside : i < linked.length)
    (enough : linked.length ≤ fuel + i) :
    (MProfile.ofDocument doc).getChain fuel (recordAt linked i) ≠ .error .outOfFuel := by
  induction fuel generalizing i with
  | zero => omega
  | succ fuel inductionHypothesis =>
      rw [MProfile.getChain]
      by_cases next : (recordAt linked i).mprNextId ≠ 0
      · rw [if_pos next]
        cases lookup : (MProfile.ofDocument doc).getMr (recordAt linked i).mprNextId with
        | none => simp
        | some found =>
            rcases facts.getMr_next fresh saved next lookup with ⟨k, further, insideK, same⟩
            have onward := inductionHypothesis k insideK (by omega)
            simp only [same]
            cases walked : (MProfile.ofDocument doc).getChain fuel (recordAt linked k) with
            | error stop => rw [walked] at onward; simpa using onward
            | ok chain => simp
      · rw [if_neg next]
        simp

/-- With gap-free ids the walk follows the links of the log. -/
theorem Linked.getChain_returns (facts : Linked log linked)
    (gapFree : GapFree log) (saved : doc.allocations = linked) (fuel i : Nat)
    (inside : i < linked.length) (enough : linked.length ≤ fuel + i) :
    Exists fun rest =>
      (MProfile.ofDocument doc).getChain fuel (recordAt linked i) = .ok
      (recordAt linked i :: rest) ∧
        (recordAt linked i :: rest).IsChain
          (fun a b => a.mprNextId = b.mprId ∧ b.mprPrevId = a.mprId) := by
  induction fuel generalizing i with
  | zero => omega
  | succ fuel inductionHypothesis =>
      rw [MProfile.getChain]
      by_cases next : (recordAt linked i).mprNextId ≠ 0
      · rw [if_pos next]
        rcases facts.next_exists next with ⟨j, linkedBy, target⟩
        have insideJ := linkedBy.lt_length
        have before := linkedBy.lt
        have sameLength := facts.length
        have position := gapFree j insideJ
        cases lookup : (MProfile.ofDocument doc).getMr (recordAt linked i).mprNextId with
        | none =>
            have present := MProfile.getMr_isSome doc (recordAt linked i).mprNextId
              (by omega) (by rw [saved]; omega)
            rw [lookup] at present
            cases present
        | some found =>
            have here := (MProfile.getMr_some lookup).2.2
            have same : found.mr = recordAt linked j := by
              rw [saved, target, position, Nat.add_sub_cancel] at here
              rw [recordAt, List.getD_eq_getElem?_getD, here, Option.getD_some]
            rcases inductionHypothesis j (by omega) (by omega) with ⟨rest, walked, chained⟩
            refine ⟨recordAt linked j :: rest, ?_, ?_⟩
            · simp only [same, walked]
            · have link := facts.link j i linkedBy
              exact List.isChain_cons_cons.mpr
                ⟨⟨by rw [facts.id]; exact link.2, by rw [facts.id]; exact link.1⟩, chained⟩
      · rw [if_neg next]
        exact ⟨[], rfl, List.IsChain.singleton _⟩

/-- Linking a log is linking it correctly. -/
theorem Linked.correctlyLinked (facts : Linked log linked) (fresh : FreshLog log) :
    CorrectlyLinked log linked where
  sameRecords := facts.bare
  links := fun i j insideI insideJ =>
    ⟨(facts.next_iff fresh insideJ).trans (facts.prev_iff fresh insideI).symm,
      facts.prev_iff fresh insideI⟩
  increases := fun i j insideI insideJ next => by
    rw [facts.id, facts.id]
    exact fresh.id_lt ((facts.next_iff fresh insideJ).mp next).lt insideJ
  onePredecessor := fun i i' j insideI insideI' insideJ next next' =>
    ((facts.next_iff fresh insideJ).mp next).unique
      ((facts.next_iff fresh insideJ).mp next')
  oneSuccessor := fun i j j' insideI insideJ insideJ' prev prev' => by
    have link := facts.link j i ((facts.prev_iff fresh insideI).mp prev)
    have link' := facts.link j' i ((facts.prev_iff fresh insideI).mp prev')
    exact fresh.id_injective insideJ insideJ' (link.2.symm.trans link'.2)
  nextExists := fun i next => by
    rcases facts.next_exists next with ⟨j, linkedBy, target⟩
    exact ⟨j, linkedBy.lt_length, by rw [facts.id]; exact target⟩
  prevExists := fun j prev => by
    rcases facts.prev_exists prev with ⟨i, linkedBy, target⟩
    exact ⟨i, linkedBy.lt_both.1, by rw [facts.id]; exact target⟩
  allocFirst := fun r member state =>
    facts.prev_zero member (by rw [MprofileRecord.consumes, state])
  nullFreeFirst := fun r member state null =>
    facts.prev_zero member (by rw [MprofileRecord.consumes, state]; exact if_pos null)
  freeLast := fun r member state =>
    facts.next_zero member (by rw [MprofileRecord.produces, state])
  chainsEnd := fun doc r saved member => by
    rcases mem_recordAt member with ⟨i, inside, rfl⟩
    exact facts.getChain_ends fresh saved linked.length i inside (by omega)
  chainsReturn := fun doc r saved gapFree member => by
    rcases mem_recordAt member with ⟨i, inside, rfl⟩
    rcases facts.getChain_returns gapFree saved linked.length i inside (by omega) with
      ⟨rest, walked, chained⟩
    exact ⟨_, walked, chained⟩

end Walk

/-- `build_chains` stops exactly on the logs that are no heap history, never in
an assertion, and links every other log correctly. -/
theorem buildChains_exact (log : List MprofileRecord) (fresh : FreshLog log) :
    ((Exists fun stop => buildChains log = .error stop) ↔ replay log = none) ∧
      (forall stop, buildChains log = .error stop -> stop.isAssert = false) ∧
      (forall linked, buildChains log = .ok linked -> CorrectlyLinked log linked) := by
  cases replayed : replay log with
  | none =>
      rcases buildChains_conflict log fresh.bare replayed with ⟨stop, stopped, notAssert⟩
      rw [stopped]
      refine ⟨⟨fun _ => rfl, fun _ => ⟨stop, rfl⟩⟩, fun other same => ?_, fun linked same => ?_⟩
      · cases same
        exact notAssert
      · cases same
  | some live =>
      rcases buildChains_linked log fresh.bare replayed with ⟨linked, built, facts⟩
      rw [built]
      refine ⟨⟨fun stopped => ?_, fun impossible => ?_⟩, fun stop same => ?_, fun other same => ?_⟩
      · rcases stopped with ⟨stop, same⟩
        cases same
      · cases impossible
      · cases same
      · cases same
        exact facts.correctlyLinked fresh

/-- A block that moves, is released, and whose first address is used again. -/
def reusedAddressLog : List MprofileRecord :=
  [⟨1, 16, 0, 8, .alloc, 0, 0, 0, ⟨0, 0⟩⟩, ⟨2, 64, 16, 8, .realloc, 0, 0, 0, ⟨0, 0⟩⟩,
    ⟨4, 16, 0, 4, .alloc, 0, 0, 0, ⟨0, 0⟩⟩, ⟨5, 0, 0, 0, .free, 0, 0, 0, ⟨0, 0⟩⟩,
    ⟨7, 64, 0, -16, .free, 0, 0, 0, ⟨0, 0⟩⟩]

theorem buildChains_exact_reusedAddressLog :
    Exists fun linked =>
      buildChains reusedAddressLog = .ok linked ∧ CorrectlyLinked reusedAddressLog linked := by
  have exactness := buildChains_exact reusedAddressLog
    ⟨by decide, by decide, by decide⟩
  exact ⟨_, rfl, exactness.2.2 _ rfl⟩

end Mprofile
end OsslScripts
