import OsslScripts.Mprofile.Logging
import OsslScripts.Mprofile.Save

namespace OsslScripts
namespace Mprofile

open Foundation

/-!
# The log of several threads

Two invariants connect the records drawn so far, in the order of their ids,
with the state.  `LiveLog` says what a replay of them leaves: the pointers of
the application and one for each call that is answerable for one.  `Queues` says
where they are: in the queues of the listed profiles, each in one place, except
for the record that a thread has just drawn.
-/

/-- The pointers that are live in the log are those of the application and of the calls. -/
structure LiveLog {Thread : Type} (client : Holdings Thread) (lives : Thread -> Option UInt64)
    (drawn : List MprofileRecord) : Prop where
  replays : Exists fun live => replay drawn = some live ∧ forall x, x ∈ live ↔
    client.owned x ≠ none ∨ Exists fun t => lives t = some x
  apartOwned : forall t x, lives t = some x -> client.owned x = none
  apart : forall t u x, lives t = some x -> lives u = some x -> t = u

section Live

variable {Thread : Type} [DecidableEq Thread] {client : Holdings Thread}
  {lives : Thread -> Option UInt64} {drawn : List MprofileRecord} {t : Thread}

theorem exists_update_iff {x : UInt64} {value : Option UInt64} :
    (Exists fun u => Function.update lives t value u = some x) ↔
      value = some x ∨ Exists fun u => u ≠ t ∧ lives u = some x := by
  constructor
  · rintro ⟨u, isU⟩
    by_cases here : u = t
    · subst here
      rw [Function.update_self] at isU
      exact Or.inl isU
    · rw [Function.update_of_ne here] at isU
      exact Or.inr ⟨u, here, isU⟩
  · rintro (here | ⟨u, different, isU⟩)
    · exact ⟨t, by rw [Function.update_self]; exact here⟩
    · exact ⟨u, by rw [Function.update_of_ne different]; exact isU⟩

/-- What the other threads answer for, when this one answers for `value`. -/
theorem LiveLog.apart_update (log : LiveLog client lives drawn) {value : Option UInt64}
    (free : forall x u, value = some x -> u ≠ t -> lives u ≠ some x) (u v : Thread) (x : UInt64)
    (isU : Function.update lives t value u = some x)
    (isV : Function.update lives t value v = some x) :
    u = v := by
  by_cases hereU : u = t
  · by_cases hereV : v = t
    · rw [hereU, hereV]
    · subst hereU
      rw [Function.update_self] at isU
      rw [Function.update_of_ne hereV] at isV
      exact absurd isV (free x v isU hereV)
  · rw [Function.update_of_ne hereU] at isU
    by_cases hereV : v = t
    · subst hereV
      rw [Function.update_self] at isV
      exact absurd isU (free x u isV hereU)
    · rw [Function.update_of_ne hereV] at isV
      exact log.apart u v x isU isV

/-- A record is drawn that consumes what is live for its thread, and produces
what is live for nobody else. -/
theorem LiveLog.draw (log : LiveLog client lives drawn) (mpr : MprofileRecord)
    (consumes : mpr.consumes = lives t)
    (free : forall x, mpr.produces = some x ->
      client.owned x = none ∧ forall u, u ≠ t -> lives u ≠ some x) :
    LiveLog client (Function.update lives t mpr.produces) (drawn ++ [mpr]) := by
  rcases log.replays with ⟨live, replayed, isLive⟩
  have noConflict : replayStep live mpr ≠ none := by
    intro conflict
    rcases (replayStep_none_iff live mpr).mp conflict with ⟨x, isConsumed, notLive⟩ |
      ⟨x, isProduced, present, different⟩
    · rw [consumes] at isConsumed
      exact notLive ((isLive x).mpr (Or.inr ⟨t, isConsumed⟩))
    · rcases (isLive x).mp present with isOwned | ⟨u, isU⟩
      · exact isOwned (free x isProduced).1
      · by_cases here : u = t
        · subst here
          exact different (consumes.trans isU)
        · exact (free x isProduced).2 u here isU
  cases stepped : replayStep live mpr with
  | none => exact absurd stepped noConflict
  | some after =>
      refine ⟨⟨after, ?_, fun x => ?_⟩, fun u x isU => ?_, ?_⟩
      · rw [replay, replayFrom_append]
        have replayedFrom : replayFrom ∅ drawn = some live := replayed
        rw [replayedFrom]
        simp only [replayFrom, stepped]
      · rw [mem_replayStep stepped, isLive, exists_update_iff, consumes]
        constructor
        · rintro (isProduced | ⟨isOwned | ⟨u, isU⟩, notMine⟩)
          · exact Or.inr (Or.inl isProduced)
          · exact Or.inl isOwned
          · exact Or.inr (Or.inr ⟨u, fun same => notMine (by rw [← same]; exact isU), isU⟩)
        · rintro (isOwned | isProduced | ⟨u, different, isU⟩)
          · refine Or.inr ⟨Or.inl isOwned, fun mine => ?_⟩
            exact isOwned (log.apartOwned t x mine)
          · exact Or.inl isProduced
          · exact Or.inr ⟨Or.inr ⟨u, isU⟩, fun mine => different (log.apart u t x isU mine)⟩
      · by_cases here : u = t
        · subst here
          rw [Function.update_self] at isU
          exact (free x isU).1
        · rw [Function.update_of_ne here] at isU
          exact log.apartOwned u x isU
      · exact log.apart_update (fun x u isProduced different => (free x isProduced).2 u different)

/-- A call takes up a pointer of the application. -/
theorem LiveLog.claim (log : LiveLog client lives drawn) (idle : lives t = none) {b sz : UInt64}
    (isOwned : client.owned b = some sz) {client' : Holdings Thread}
    (taken : client'.owned = Function.update client.owned b none) :
    LiveLog client' (Function.update lives t (some b)) drawn := by
  have notLive : forall u, lives u ≠ some b := by
    intro u isU
    rw [log.apartOwned u b isU] at isOwned
    cases isOwned
  rcases log.replays with ⟨live, replayed, isLive⟩
  refine ⟨⟨live, replayed, fun x => ?_⟩, fun u x isU => ?_, ?_⟩
  · rw [isLive, exists_update_iff, taken]
    by_cases same : x = b
    · subst same
      exact ⟨fun _ => Or.inr (Or.inl rfl),
        fun _ => Or.inl (by rw [isOwned]; exact Option.some_ne_none _)⟩
    · rw [Function.update_of_ne same]
      constructor
      · rintro (stays | ⟨u, isU⟩)
        · exact Or.inl stays
        · refine Or.inr (Or.inr ⟨u, ?_, isU⟩)
          rintro rfl
          rw [idle] at isU
          cases isU
      · rintro (stays | mine | ⟨u, -, isU⟩)
        · exact Or.inl stays
        · exact absurd (Option.some.inj mine).symm same
        · exact Or.inr ⟨u, isU⟩
  · rw [taken]
    by_cases here : u = t
    · subst here
      rw [Function.update_self] at isU
      cases isU
      exact Function.update_self ..
    · rw [Function.update_of_ne here] at isU
      by_cases same : x = b
      · rw [same]
        exact Function.update_self ..
      · rw [Function.update_of_ne same]
        exact log.apartOwned u x isU
  · exact log.apart_update (fun x u mine _ => by cases mine; exact notLive u)

/-- A call returns the pointer that it answers for. -/
theorem LiveLog.give (log : LiveLog client lives drawn) (sz : UInt64) {b : UInt64}
    (mine : lives t = some b)
    {client' : Holdings Thread} (given : client'.owned = Function.update client.owned b (some sz)) :
    LiveLog client' (Function.update lives t none) drawn := by
  rcases log.replays with ⟨live, replayed, isLive⟩
  refine ⟨⟨live, replayed, fun x => ?_⟩, fun u x isU => ?_, ?_⟩
  · rw [isLive, exists_update_iff, given]
    by_cases same : x = b
    · subst same
      rw [Function.update_self]
      exact ⟨fun _ => Or.inl (Option.some_ne_none _), fun _ => Or.inr ⟨t, mine⟩⟩
    · rw [Function.update_of_ne same]
      constructor
      · rintro (stays | ⟨u, isU⟩)
        · exact Or.inl stays
        · refine Or.inr (Or.inr ⟨u, ?_, isU⟩)
          rintro rfl
          rw [mine] at isU
          exact same (Option.some.inj isU).symm
      · rintro (stays | impossible | ⟨u, -, isU⟩)
        · exact Or.inl stays
        · cases impossible
        · exact Or.inr ⟨u, isU⟩
  · rw [given]
    by_cases here : u = t
    · subst here
      rw [Function.update_self] at isU
      cases isU
    · rw [Function.update_of_ne here] at isU
      have different : x ≠ b := by
        rintro rfl
        exact here (log.apart u t x isU mine)
      rw [Function.update_of_ne different]
      exact log.apartOwned u x isU
  · exact log.apart_update (fun x u impossible _ => by cases impossible)

omit [DecidableEq Thread] in
theorem liveLog_init : LiveLog (Holdings.none : Holdings Thread) (fun _ => none) [] := by
  refine ⟨⟨∅, rfl, fun x => ?_⟩, fun t x impossible => (by cases impossible),
    fun t u x impossible => (by cases impossible)⟩
  simp [Holdings.none]

end Live

/-! ## Where the records are -/

/-- The profiles in the list and those that are about to enter it. -/
structure ProfileList {Thread : Type} (prof : Profiler) (gs : Thread -> Filing) : Prop where
  nodup : prof.profiles.Nodup
  below : forall mp, mp ∈ prof.profiles -> mp < prof.mprofileTop
  created : forall t, (gs t).created ≠ 0 -> (gs t).created ∉ prof.profiles ∧
    (gs t).created < prof.mprofileTop ∧ (prof.mprofile (gs t).created).mpTqhead = []
  createdApart : forall t u, (gs t).created ≠ 0 -> (gs t).created = (gs u).created -> t = u
  found : forall t, (gs t).profile ≠ 0 -> (gs t).profile ∈ prof.profiles
  specific : forall tid, prof.specific tid ≠ 0 -> prof.specific tid ∈ prof.profiles

/-- The records drawn so far are numbered without gaps, and each of them is in
one queue, or about to enter it. -/
structure Queues {Thread : Type} (prof : Profiler) (gs : Thread -> Filing)
    (drawn : List MprofileRecord) : Prop where
  ids : drawn.map MprofileRecord.mprId = List.range' 1 prof.mprId
  blank : forall mpr, mpr ∈ drawn -> mpr.Blank
  filed : forall mpr, mpr ∈ drawn ↔ mpr ∈ prof.records.map MprofileRecord.unfiled ∨
    Exists fun t => (gs t).due = some mpr
  once : (prof.records.map MprofileRecord.mprId).Nodup
  dueApart : forall t mpr, (gs t).due = some mpr ->
    mpr.mprId ∉ prof.records.map MprofileRecord.mprId
  dueOnce : forall t u mpr mpr', (gs t).due = some mpr -> (gs u).due = some mpr' ->
    mpr.mprId = mpr'.mprId -> t = u

section Queueing

variable {Thread : Type} [DecidableEq Thread] {prof prof' : Profiler} {gs : Thread -> Filing}
  {drawn : List MprofileRecord} {t : Thread} {g : Filing}

/-- The records, by the handles of the profiles. -/
theorem records_eq (prof : Profiler) :
    prof.records = prof.profiles.flatMap (fun mp => (prof.mprofile mp).mpTqhead) := by
  rw [Profiler.records, Profiler.listed, List.flatMap_map]

/-- Records are appended at the end of one queue. -/
theorem records_insertTail {mp : Nat} (mpr : MprofileRecord) (listed : mp ∈ prof.profiles)
    (nodup : prof.profiles.Nodup) :
    (prof.insertTail mp mpr).records.Perm (prof.records ++ [mpr]) := by
  rw [records_eq, records_eq]
  change (prof.profiles.flatMap (fun q => ((Function.update prof.mprofile mp _) q).mpTqhead)).Perm _
  generalize prof.profiles = profiles at listed nodup
  induction profiles with
  | nil => cases listed
  | cons head rest inductionHypothesis =>
      have parts := List.nodup_cons.mp nodup
      rw [List.flatMap_cons, List.flatMap_cons]
      by_cases here : head = mp
      · subst here
        have others : rest.flatMap (fun q => ((Function.update prof.mprofile head
            { prof.mprofile head with mpTqhead := (prof.mprofile head).mpTqhead ++ [mpr] })
              q).mpTqhead) = rest.flatMap (fun q => (prof.mprofile q).mpTqhead) := by
          refine List.flatMap_congr (fun q member => ?_)
          have different : q ≠ head := fun same => parts.1 (same ▸ member)
          rw [Function.update_of_ne different]
        rw [others, Function.update_self]
        simp only [List.append_assoc]
        exact List.perm_append_comm.append_left _
      · have inRest := (List.mem_cons.mp listed).resolve_left (fun same => here same.symm)
        rw [Function.update_of_ne here, List.append_assoc]
        exact (inductionHypothesis inRest parts.2).append_left _

/-- Filing a stack changes nothing but a stack id. -/
theorem records_setStackId (mp mprId stackId : Nat) :
    (prof.setStackId mp mprId stackId).records.map MprofileRecord.unfiled =
      prof.records.map MprofileRecord.unfiled := by
  rw [records_eq, records_eq, List.map_flatMap, List.map_flatMap]
  refine List.flatMap_congr (fun q _ => ?_)
  change ((Function.update prof.mprofile mp _) q).mpTqhead.map MprofileRecord.unfiled = _
  by_cases here : q = mp
  · subst here
    rw [Function.update_self, List.map_map]
    refine List.map_congr_left (fun r _ => ?_)
    simp only [Function.comp_apply]
    split_ifs <;> rfl
  · rw [Function.update_of_ne here]

/-- Records without their stacks tell the ids. -/
theorem ids_of_unfiled {log log' : List MprofileRecord}
    (same : log.map MprofileRecord.unfiled = log'.map MprofileRecord.unfiled) :
    log.map MprofileRecord.mprId = log'.map MprofileRecord.mprId := by
  rw [← map_mprId_unfiled, same, map_mprId_unfiled]

/-- The queues stay as they are, up to stack ids. -/
theorem Queues.congr (queues : Queues prof gs drawn) (sameId : prof'.mprId = prof.mprId)
    (same : prof'.records.map MprofileRecord.unfiled = prof.records.map MprofileRecord.unfiled)
    (due : g.due = (gs t).due) : Queues prof' (Function.update gs t g) drawn := by
  have sameDue : forall u, (Function.update gs t g u).due = (gs u).due := by
    intro u
    by_cases here : u = t
    · subst here
      rw [Function.update_self, due]
    · rw [Function.update_of_ne here]
  refine ⟨by rw [queues.ids, sameId], queues.blank, fun mpr => ?_, ?_, fun u mpr isU => ?_,
    fun u v mpr mpr' isU isV => ?_⟩
  · simp only [sameDue, same]
    exact queues.filed mpr
  · rw [ids_of_unfiled same]
    exact queues.once
  · rw [sameDue] at isU
    rw [ids_of_unfiled same]
    exact queues.dueApart u mpr isU
  · rw [sameDue] at isU isV
    exact queues.dueOnce u v mpr mpr' isU isV

omit [DecidableEq Thread] in
/-- The next id is new. -/
theorem Queues.id_le (queues : Queues prof gs drawn) {mpr : MprofileRecord} (member : mpr ∈ drawn) :
    mpr.mprId ≤ prof.mprId := by
  have inRange : mpr.mprId ∈ List.range' 1 prof.mprId := by
    rw [← queues.ids]
    exact List.mem_map_of_mem member
  have bounds := List.mem_range'_1.mp inRange
  omega

omit [DecidableEq Thread] in
theorem Queues.record_id_le (queues : Queues prof gs drawn) {id : Nat}
    (member : id ∈ prof.records.map MprofileRecord.mprId) : id ≤ prof.mprId := by
  rw [← map_mprId_unfiled] at member
  rcases List.mem_map.mp member with ⟨mpr, inRecords, rfl⟩
  exact queues.id_le ((queues.filed mpr).mpr (Or.inl inRecords))

/-- A record gets the next id. -/
theorem Queues.draw (queues : Queues prof gs drawn) (quiet : (gs t).due = none)
    {mpr : MprofileRecord} (blank : mpr.Blank) (isNext : mpr.mprId = prof.mprId + 1)
    (due : g.due = some mpr) :
    Queues { prof with mprId := prof.mprId + 1 } (Function.update gs t g) (drawn ++ [mpr]) := by
  have others : forall u, u ≠ t -> (Function.update gs t g u).due = (gs u).due :=
    fun u different => by rw [Function.update_of_ne different]
  have mine : (Function.update gs t g t).due = some mpr := by rw [Function.update_self, due]
  have old : forall u other, (gs u).due = some other -> other.mprId ≤ prof.mprId :=
    fun u other isU => queues.id_le ((queues.filed other).mpr (Or.inr ⟨u, isU⟩))
  refine ⟨?_, fun other member => ?_, fun other => ?_, queues.once, fun u other isU present => ?_,
    fun u v other other' isU isV sameId => ?_⟩
  · rw [List.map_append, queues.ids, List.map_singleton, isNext, List.range'_1_concat,
      Nat.add_comm 1]
  · rcases List.mem_append.mp member with before | isNew
    · exact queues.blank other before
    · rw [List.mem_singleton.mp isNew]
      exact blank
  · rw [List.mem_append, queues.filed, List.mem_singleton, or_assoc]
    refine or_congr Iff.rfl ⟨?_, ?_⟩
    · rintro (⟨u, isU⟩ | rfl)
      · refine ⟨u, ?_⟩
        rw [others u (fun same => by rw [same, quiet] at isU; cases isU)]
        exact isU
      · exact ⟨t, mine⟩
    · rintro ⟨u, isU⟩
      by_cases here : u = t
      · subst here
        exact Or.inr (Option.some.inj (isU.symm.trans mine))
      · rw [others u here] at isU
        exact Or.inl ⟨u, isU⟩
  · by_cases here : u = t
    · subst here
      have same := Option.some.inj (isU.symm.trans mine)
      have small := queues.record_id_le present
      rw [same, isNext] at small
      omega
    · rw [others u here] at isU
      exact queues.dueApart u other isU present
  · by_cases hereU : u = t
    · by_cases hereV : v = t
      · rw [hereU, hereV]
      · subst hereU
        rw [others v hereV] at isV
        have same := Option.some.inj (isU.symm.trans mine)
        have small := old v other' isV
        rw [← sameId, same, isNext] at small
        omega
    · rw [others u hereU] at isU
      by_cases hereV : v = t
      · subst hereV
        have same := Option.some.inj (isV.symm.trans mine)
        have small := old u other isU
        rw [sameId, same, isNext] at small
        omega
      · rw [others v hereV] at isV
        exact queues.dueOnce u v other other' isU isV sameId

/-- The record enters its queue. -/
theorem Queues.insertTail (queues : Queues prof gs drawn) {mp : Nat} {mpr : MprofileRecord}
    (due : (gs t).due = some mpr) (listed : mp ∈ prof.profiles) (nodup : prof.profiles.Nodup)
    (done : g.due = none) : Queues (prof.insertTail mp mpr) (Function.update gs t g) drawn := by
  have perm := records_insertTail mpr listed nodup
  have ids : ((prof.insertTail mp mpr).records.map MprofileRecord.mprId).Perm
      (prof.records.map MprofileRecord.mprId ++ [mpr.mprId]) := by
    have mapped := perm.map MprofileRecord.mprId
    rwa [List.map_append, List.map_singleton] at mapped
  have drawnHere : mpr ∈ drawn := (queues.filed mpr).mpr (Or.inr ⟨t, due⟩)
  have unfiled : mpr.unfiled = mpr := by
    have blank := queues.blank mpr drawnHere
    rw [MprofileRecord.unfiled, ← blank.2.2]
  have others : forall u, u ≠ t -> (Function.update gs t g u).due = (gs u).due :=
    fun u different => by rw [Function.update_of_ne different]
  have notMine : forall u other, (Function.update gs t g u).due = some other -> u ≠ t := by
    rintro u other isU rfl
    rw [Function.update_self, done] at isU
    cases isU
  refine ⟨queues.ids, queues.blank, fun other => ?_, ?_, fun u other isU present => ?_,
    fun u v other other' isU isV sameId => ?_⟩
  · rw [queues.filed, (perm.map MprofileRecord.unfiled).mem_iff, List.map_append, List.mem_append,
      List.map_singleton, unfiled, List.mem_singleton, or_assoc]
    refine or_congr Iff.rfl ⟨?_, ?_⟩
    · rintro ⟨u, isU⟩
      by_cases here : u = t
      · subst here
        exact Or.inl (Option.some.inj (isU.symm.trans due))
      · exact Or.inr ⟨u, by rw [others u here]; exact isU⟩
    · rintro (rfl | ⟨u, isU⟩)
      · exact ⟨t, due⟩
      · rw [others u (notMine u other isU)] at isU
        exact ⟨u, isU⟩
  · refine ids.nodup_iff.mpr (List.nodup_append.mpr ⟨queues.once, List.nodup_singleton _, ?_⟩)
    rintro id present other isNew rfl
    rw [List.mem_singleton.mp isNew] at present
    exact queues.dueApart t mpr due present
  · have different := notMine u other isU
    rw [others u different] at isU
    rcases List.mem_append.mp (ids.mem_iff.mp present) with before | isNew
    · exact queues.dueApart u other isU before
    · exact different (queues.dueOnce u t other mpr isU due (List.mem_singleton.mp isNew))
  · rw [others u (notMine u other isU)] at isU
    rw [others v (notMine v other' isV)] at isV
    exact queues.dueOnce u v other other' isU isV sameId

omit [DecidableEq Thread] in
/-- Threads that rest have nothing due, so the records are in the queues. -/
theorem Queues.perm (queues : Queues prof gs drawn) (rest : forall t, (gs t).due = none) :
    drawn.Perm (prof.records.map MprofileRecord.unfiled) := by
  have drawnNodup : drawn.Nodup := by
    have ids : (drawn.map MprofileRecord.mprId).Nodup := by
      rw [queues.ids]
      exact List.nodup_range'
    exact ids.of_map
  have recordsNodup : (prof.records.map MprofileRecord.unfiled).Nodup := by
    have ids := queues.once
    rw [← map_mprId_unfiled] at ids
    exact ids.of_map
  rw [List.perm_ext_iff_of_nodup drawnNodup recordsNodup]
  intro mpr
  rw [queues.filed]
  constructor
  · rintro (filed | ⟨t, due⟩)
    · exact filed
    · rw [rest t] at due
      cases due
  · exact Or.inl

omit [DecidableEq Thread] in
theorem Queues.sorted (queues : Queues prof gs drawn) :
    OrderedTree.Sorted MprofileRecord.mprId drawn := by
  have increasing : (drawn.map MprofileRecord.mprId).Pairwise (fun a b => a < b) := by
    rw [queues.ids]
    exact List.pairwise_lt_range'
  exact List.pairwise_map.mp increasing

/-! ## The list of profiles -/

/-- The list grows, and the profiles that are about to enter it stay out and empty. -/
theorem ProfileList.change (list : ProfileList prof gs) (t : Thread) (g : Filing)
    (nodup : prof'.profiles.Nodup)
    (below : forall mp, mp ∈ prof'.profiles -> mp < prof'.mprofileTop)
    (grows : forall mp, mp ∈ prof.profiles -> mp ∈ prof'.profiles)
    (others : forall u, u ≠ t -> (gs u).created ≠ 0 -> (gs u).created ∉ prof'.profiles ∧
      (gs u).created < prof'.mprofileTop ∧ (prof'.mprofile (gs u).created).mpTqhead = [])
    (own : g.created ≠ 0 -> (g.created ∉ prof'.profiles ∧ g.created < prof'.mprofileTop ∧
      (prof'.mprofile g.created).mpTqhead = []) ∧ forall u, u ≠ t -> (gs u).created ≠ g.created)
    (found : g.profile ≠ 0 -> g.profile ∈ prof'.profiles)
    (specific : forall tid, prof'.specific tid ≠ 0 -> prof'.specific tid ∈ prof'.profiles) :
    ProfileList prof' (Function.update gs t g) := by
  refine ⟨nodup, below, fun u isU => ?_, fun u v isU same => ?_, fun u isU => ?_, specific⟩
  · by_cases here : u = t
    · subst here
      rw [Function.update_self] at isU ⊢
      exact (own isU).1
    · rw [Function.update_of_ne here] at isU ⊢
      exact others u here isU
  · by_cases hereU : u = t
    · by_cases hereV : v = t
      · rw [hereU, hereV]
      · subst hereU
        rw [Function.update_self] at isU same
        rw [Function.update_of_ne hereV] at same
        exact absurd same.symm ((own isU).2 v hereV)
    · rw [Function.update_of_ne hereU] at isU same
      by_cases hereV : v = t
      · subst hereV
        rw [Function.update_self] at same
        exact absurd same ((own (by rw [← same]; exact isU)).2 u hereU)
      · rw [Function.update_of_ne hereV] at same
        exact list.createdApart u v isU same
  · by_cases here : u = t
    · subst here
      rw [Function.update_self] at isU ⊢
      exact found isU
    · rw [Function.update_of_ne here] at isU ⊢
      exact grows _ (list.found u isU)

/-- The list stays as it is, and empty profiles outside of it stay empty. -/
theorem ProfileList.keep (list : ProfileList prof gs) (t : Thread) (g : Filing)
    (profiles : prof'.profiles = prof.profiles) (top : prof'.mprofileTop = prof.mprofileTop)
    (empty : forall mp, mp ∉ prof.profiles -> (prof.mprofile mp).mpTqhead = [] ->
      (prof'.mprofile mp).mpTqhead = [])
    (created : g.created = (gs t).created)
    (found : g.profile ≠ 0 -> g.profile ∈ prof.profiles)
    (specific : forall tid, prof'.specific tid ≠ 0 -> prof'.specific tid ∈ prof.profiles) :
    ProfileList prof' (Function.update gs t g) := by
  have stays : forall u, (gs u).created ≠ 0 -> (gs u).created ∉ prof'.profiles ∧
      (gs u).created < prof'.mprofileTop ∧ (prof'.mprofile (gs u).created).mpTqhead = [] := by
    intro u isU
    have old := list.created u isU
    rw [profiles, top]
    exact ⟨old.1, old.2.1, empty _ old.1 old.2.2⟩
  refine list.change t g (by rw [profiles]; exact list.nodup)
    (by rw [profiles, top]; exact list.below) (fun mp member => by rw [profiles]; exact member)
    (fun u _ isU => stays u isU) (fun isG => ?_) (by rw [profiles]; exact found)
    (by rw [profiles]; exact specific)
  rw [created] at isG ⊢
  exact ⟨stays t isG, fun u different same => different (list.createdApart t u isG same.symm).symm⟩

/-- What `mprofile_create` does: it fails, or makes an empty profile under a new handle. -/
theorem mprofileCreate_cases (prof : Profiler) (answer : Answer) :
    ((prof.mprofileCreate answer).1.profiles = prof.profiles ∧
      (prof.mprofileCreate answer).1.specific = prof.specific ∧
      (prof.mprofileCreate answer).1.mprId = prof.mprId) ∧
    (((prof.mprofileCreate answer).2 = 0 ∧ (prof.mprofileCreate answer).1.mprofile = prof.mprofile ∧
        (prof.mprofileCreate answer).1.mprofileTop = prof.mprofileTop) ∨
      ((prof.mprofileCreate answer).2 = prof.mprofileTop ∧
        (prof.mprofileCreate answer).1.mprofileTop = prof.mprofileTop + 1 ∧
        Exists fun stset => (prof.mprofileCreate answer).1.mprofile =
          Function.update prof.mprofile prof.mprofileTop ⟨[], stset⟩)) := by
  unfold Profiler.mprofileCreate
  by_cases started : prof.startTimeTv.tvSec = 0
  · simp only [if_pos started]
    cases answer.createOk with
    | false => exact ⟨⟨rfl, rfl, rfl⟩, Or.inl ⟨rfl, rfl, rfl⟩⟩
    | true => exact ⟨⟨rfl, rfl, rfl⟩, Or.inr ⟨rfl, rfl, _, rfl⟩⟩
  · simp only [if_neg started]
    cases answer.createOk with
    | false => exact ⟨⟨rfl, rfl, rfl⟩, Or.inl ⟨rfl, rfl, rfl⟩⟩
    | true => exact ⟨⟨rfl, rfl, rfl⟩, Or.inr ⟨rfl, rfl, _, rfl⟩⟩

/-- `mprofile_create` leaves a profile outside of the list. -/
theorem ProfileList.create (list : ProfileList prof gs) (t : Thread) (g : Filing) (answer : Answer)
    (created : g.created = (prof.mprofileCreate answer).2) (found : g.profile = (gs t).profile) :
    ProfileList (prof.mprofileCreate answer).1 (Function.update gs t g) ∧
      (prof.mprofileCreate answer).1.records = prof.records := by
  rcases mprofileCreate_cases prof answer with ⟨⟨profiles, specific, -⟩,
    ⟨failed, mprofile, top⟩ | ⟨made, top, stset, mprofile⟩⟩
  · refine ⟨?_, by rw [records_eq, records_eq, profiles, mprofile]⟩
    refine list.change t g (by rw [profiles]; exact list.nodup)
      (by rw [profiles, top]; exact list.below) (fun mp member => by rw [profiles]; exact member)
      (fun u _ isU => ?_) (fun isG => absurd (created.trans failed) isG)
      (by rw [profiles, found]; exact list.found t)
      (by rw [profiles, specific]; exact list.specific)
    rw [profiles, top, mprofile]
    exact list.created u isU
  · have old : forall mp, mp < prof.mprofileTop ->
        (prof.mprofileCreate answer).1.mprofile mp = prof.mprofile mp := by
      intro mp less
      rw [mprofile, Function.update_of_ne (Nat.ne_of_lt less)]
    refine ⟨?_, ?_⟩
    · refine list.change t g (by rw [profiles]; exact list.nodup) ?_
        (fun mp member => by rw [profiles]; exact member) (fun u _ isU => ?_) (fun isG => ?_)
        (by rw [profiles, found]; exact list.found t)
        (by rw [profiles, specific]; exact list.specific)
      · rw [profiles, top]
        exact fun mp member => Nat.lt_succ_of_lt (list.below mp member)
      · have before := list.created u isU
        rw [profiles, top, old _ before.2.1]
        exact ⟨before.1, Nat.lt_succ_of_lt before.2.1, before.2.2⟩
      · rw [created, made] at isG ⊢
        rw [profiles, top, mprofile, Function.update_self]
        refine ⟨⟨fun member => Nat.lt_irrefl _ (list.below _ member), Nat.lt_succ_self _, rfl⟩,
          fun u _ same => ?_⟩
        have before := (list.created u (by rw [same]; exact isG)).2.1
        rw [same] at before
        exact Nat.lt_irrefl _ before
    · rw [records_eq, records_eq, profiles]
      exact List.flatMap_congr (fun mp member => by rw [old mp (list.below mp member)])

/-- `mprofile_add` of the profile that the thread has made. -/
theorem ProfileList.add (list : ProfileList prof gs) (t : Thread) (g : Filing) {mp : Nat}
    (isProfile : mp ≠ 0) (made : (gs t).created = mp) (created : g.created = 0)
    (found : g.profile = mp) :
    ProfileList { prof with profiles := prof.profiles ++ [mp] } (Function.update gs t g) ∧
      ({ prof with profiles := prof.profiles ++ [mp] } : Profiler).records = prof.records := by
  subst made
  have own := list.created t isProfile
  refine ⟨?_, ?_⟩
  · refine list.change t g ?_ (fun mp member => ?_) (fun mp member => List.mem_append_left _ member)
      (fun u different isU => ?_) (fun isG => absurd created isG) (fun _ => ?_)
      (fun tid isProfile => List.mem_append_left _ (list.specific tid isProfile))
    · refine List.nodup_append.mpr ⟨list.nodup, List.nodup_singleton _, ?_⟩
      rintro p member q isNew rfl
      exact own.1 (List.mem_singleton.mp isNew ▸ member)
    · rcases List.mem_append.mp member with before | isNew
      · exact list.below mp before
      · rw [List.mem_singleton.mp isNew]
        exact own.2.1
    · have before := list.created u isU
      refine ⟨fun member => ?_, before.2⟩
      rcases List.mem_append.mp member with listed | isNew
      · exact before.1 listed
      · exact different (list.createdApart u t isU (List.mem_singleton.mp isNew))
    · rw [found]
      exact List.mem_append_right _ (List.mem_singleton.mpr rfl)
  · rw [records_eq, records_eq, List.flatMap_append, List.flatMap_singleton, own.2.2,
      List.append_nil]

omit [DecidableEq Thread] in
theorem profileList_init : ProfileList World.init.prof (fun _ : Thread => Filing.idle) :=
  ⟨List.nodup_nil, fun mp member => (by cases member), fun t isT => absurd rfl isT,
    fun t u isT => absurd rfl isT, fun t isT => absurd rfl isT,
      fun tid isProfile => absurd rfl isProfile⟩

omit [DecidableEq Thread] in
theorem queues_init : Queues World.init.prof (fun _ : Thread => Filing.idle) [] := by
  refine ⟨rfl, fun mpr member => (by cases member), fun mpr => ?_, List.nodup_nil,
    fun t mpr due => (by cases due), fun t u mpr mpr' due => (by cases due)⟩
  constructor
  · intro member
    cases member
  · rintro (member | ⟨t, due⟩)
    · cases member
    · cases due

end Queueing


end Mprofile
end OsslScripts
