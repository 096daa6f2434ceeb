import Mathlib.Data.List.Count
import Mathlib.Data.List.Dedup
import Mathlib.Data.List.Basic

namespace OsslScripts
namespace Foundation

/-!
# Tallies that are collected

A tally says how often a key was used, for the keys that it knows.  Counts are
numbers below a modulus.  A tally takes the uses of another one over, one after
the other.  For a key that it knows it counts one up.  For a key that it does
not know it takes the count that is left at the source, whatever it is, so a
key with several uses left is counted more than once.

`collect` takes the uses of several sources over.  It is exact if and only if a
key that is new was used once in the first source that has it.
-/

variable {K : Type} [BEq K] [LawfulBEq K]

abbrev Tally (K : Type) : Type := K -> Option Nat

namespace Tally

def set (tally : Tally K) (k : K) (count : Option Nat) : Tally K :=
  fun other => if other == k then count else tally other

@[simp] theorem set_self (tally : Tally K) (k : K) (count : Option Nat) :
    tally.set k count k = count := by
  rw [set, if_pos (beq_self_eq_true k)]

theorem set_of_ne (tally : Tally K) {k other : K} (count : Option Nat) (different : other ≠ k) :
    tally.set k count other = tally other := by
  rw [set, if_neg (by simpa using different)]

/-- The exact tally. -/
def ofUses (uses : List K) : Tally K :=
  fun k => if uses.count k = 0 then none else some (uses.count k)

theorem ofUses_some_iff {uses : List K} {k : K} {count : Nat} :
    ofUses uses k = some count ↔ uses.count k = count ∧ k ∈ uses := by
  rw [ofUses, ← List.count_pos_iff]
  constructor
  · intro known
    split_ifs at known with unused
    cases known
    exact ⟨rfl, Nat.pos_of_ne_zero unused⟩
  · rintro ⟨rfl, used⟩
    exact if_neg (Nat.ne_of_gt used)

theorem ofUses_of_mem {uses : List K} {k : K} (used : k ∈ uses) :
    ofUses uses k = some (uses.count k) :=
  ofUses_some_iff.mpr ⟨rfl, used⟩

theorem ofUses_of_not_mem {uses : List K} {k : K} (unused : k ∉ uses) : ofUses uses k = none :=
  if_pos (List.count_eq_zero_of_not_mem unused)

/-- One use less, of a key that may have been used once. -/
theorem ofUses_drain (k : K) (rest : List K) :
    (ofUses (k :: rest)).set k (if (k :: rest).count k = 1 then none
      else some ((k :: rest).count k - 1)) = ofUses rest := by
  funext other
  by_cases same : other = k
  · subst same
    rw [set_self, List.count_cons_self, ofUses]
    split_ifs
    · rfl
    · omega
    · omega
    · rfl
  · have others : (k :: rest).count other = rest.count other :=
      List.count_cons_of_ne (fun equal => same equal.symm)
    rw [set_of_ne _ _ same, ofUses, ofUses, others]

/-- One more use. -/
theorem ofUses_append (uses : List K) (k : K) :
    (ofUses uses).set k (some (uses.count k + 1)) = ofUses (uses ++ [k]) := by
  funext other
  by_cases same : other = k
  · subst same
    rw [set_self, ofUses, List.count_append, List.count_singleton_self, if_neg (Nat.succ_ne_zero _)]
  · have others : (uses ++ [k]).count other = uses.count other := by
      rw [List.count_append, List.count_singleton,
        if_neg (by simpa using fun equal => same equal.symm),
        Nat.add_zero]
    rw [set_of_ne _ _ same, ofUses, ofUses, others]

/-- What a use of `k` leaves in the tally, where `left` uses are left at the source. -/
def taken (m : Nat) (tally : Tally K) (k : K) (left : Nat) : Nat :=
  match tally k with
  | some count => (count + 1) % m
  | none => left

/-- Take over all uses of a source. -/
def absorb (m : Nat) : Tally K -> List K -> Tally K
  | tally, [] => tally
  | tally, k :: rest => absorb m (tally.set k (some (tally.taken m k ((k :: rest).count k)))) rest

/-- Take over the uses of all sources. -/
def collect (m : Nat) (own : List K) (sources : List (List K)) : Tally K :=
  sources.foldl (absorb m) (ofUses own)

/-- The uses that are counted twice: all but one in the first source with the key. -/
def surplus (k : K) : List (List K) -> Nat
  | [] => 0
  | uses :: rest => if k ∈ uses then uses.count k - 1 else surplus k rest

/-- A key that is new is used once in the first source that has it. -/
def FirstMetOnce (own : List K) (sources : List (List K)) : Prop :=
  forall k, k ∈ sources.flatten -> k ∉ own ->
    forall uses, uses ∈ sources.find? (fun uses => decide (k ∈ uses)) -> uses.count k = 1

instance (own : List K) (sources : List (List K)) : Decidable (FirstMetOnce own sources) :=
  List.decidableBAll _ _

variable {m : Nat} {tally : Tally K} {k : K} {uses own : List K} {sources : List (List K)}
  {count : Nat}

theorem absorb_known (known : tally k = some count) (small : count < m) :
    absorb m tally uses k = some ((count + uses.count k) % m) := by
  induction uses generalizing tally count with
  | nil =>
      rw [absorb, known, List.count_nil, Nat.add_zero, Nat.mod_eq_of_lt small]
  | cons used rest inductionHypothesis =>
      rw [absorb]
      by_cases same : k = used
      · subst same
        have counted : (tally.set k (some (tally.taken m k ((k :: rest).count k)))) k =
            some ((count + 1) % m) := by
          rw [set_self, taken, known]
        rw [inductionHypothesis counted (Nat.mod_lt _ (Nat.zero_lt_of_lt small)),
          List.count_cons_self,
          Nat.mod_add_mod]
        congr 2
        omega
      · have kept : (tally.set used (some (tally.taken m used ((used :: rest).count used)))) k =
            some count := by
          rw [set_of_ne _ _ same, known]
        rw [inductionHypothesis kept small, List.count_cons_of_ne (fun equal => same equal.symm)]

theorem absorb_unknown (unknown : tally k = none) (small : uses.count k < m) :
    absorb m tally uses k =
      if uses.count k = 0 then none else some ((uses.count k + (uses.count k - 1)) % m) := by
  induction uses generalizing tally with
  | nil => exact unknown
  | cons used rest inductionHypothesis =>
      rw [absorb]
      by_cases same : k = used
      · subst same
        have copied : (tally.set k (some (tally.taken m k ((k :: rest).count k)))) k =
            some ((k :: rest).count k) := by
          rw [set_self, taken, unknown]
        rw [absorb_known copied small, List.count_cons_self, if_neg (Nat.succ_ne_zero _),
          Nat.add_sub_cancel]
      · have others : (used :: rest).count k = rest.count k :=
          List.count_cons_of_ne (fun equal => same equal.symm)
        rw [others] at small ⊢
        exact inductionHypothesis (by rw [set_of_ne _ _ same, unknown]) small

theorem foldl_absorb_known (known : tally k = some count) (small : count < m) :
    sources.foldl (absorb m) tally k = some ((count + sources.flatten.count k) % m) := by
  induction sources generalizing tally count with
  | nil =>
      rw [List.foldl_nil, known, List.flatten_nil, List.count_nil, Nat.add_zero,
        Nat.mod_eq_of_lt small]
  | cons uses rest inductionHypothesis =>
      rw [List.foldl_cons, inductionHypothesis (absorb_known known small)
        (Nat.mod_lt _ (Nat.zero_lt_of_lt small)), List.flatten_cons, List.count_append,
        Nat.mod_add_mod,
        Nat.add_assoc]

theorem foldl_absorb_unknown (unknown : tally k = none) (small : sources.flatten.count k < m) :
    sources.foldl (absorb m) tally k =
      if sources.flatten.count k = 0 then none
      else some ((sources.flatten.count k + surplus k sources) % m) := by
  induction sources generalizing tally with
  | nil => exact unknown
  | cons uses rest inductionHypothesis =>
      rw [List.flatten_cons, List.count_append] at small ⊢
      have first : absorb m tally uses k =
          if uses.count k = 0 then none else some ((uses.count k + (uses.count k - 1)) % m) :=
        absorb_unknown unknown (Nat.lt_of_le_of_lt (Nat.le_add_right _ _) small)
      rw [List.foldl_cons, surplus]
      by_cases used : k ∈ uses
      · have positive : 0 < uses.count k := List.count_pos_iff.mpr used
        have next : absorb m tally uses k = some ((uses.count k + (uses.count k - 1)) % m) := by
          rw [first, if_neg (Nat.ne_of_gt positive)]
        have some : uses.count k + rest.flatten.count k ≠ 0 := by omega
        rw [foldl_absorb_known next (Nat.mod_lt _ (Nat.zero_lt_of_lt small)), if_pos used,
          if_neg some,
          Nat.mod_add_mod]
        congr 2
        omega
      · have absent : uses.count k = 0 := List.count_eq_zero_of_not_mem used
        rw [absent, if_pos rfl] at first
        rw [inductionHypothesis first (by omega), if_neg used, absent, Nat.zero_add]

/-- Each key is counted exactly as often as it was used, and once more for each
use that was counted twice. -/
theorem collect_apply (few : (own :: sources).flatten.count k < m) :
    collect m own sources k =
      if (own :: sources).flatten.count k = 0 then none
      else some (((own :: sources).flatten.count k + if k ∈ own then 0 else surplus k sources) %
        m) := by
  rw [List.flatten_cons, List.count_append] at few ⊢
  rw [collect]
  by_cases used : k ∈ own
  · have positive : 0 < own.count k := List.count_pos_iff.mpr used
    rw [foldl_absorb_known (ofUses_of_mem used) (by omega), if_neg (by omega), if_pos used,
      Nat.add_zero]
  · have absent : own.count k = 0 := List.count_eq_zero_of_not_mem used
    rw [foldl_absorb_unknown (ofUses_of_not_mem used) (by omega), if_neg used, absent, Nat.zero_add]

theorem surplus_le (k : K) (sources : List (List K)) :
    surplus k sources ≤ sources.flatten.count k := by
  induction sources with
  | nil => exact Nat.le_refl 0
  | cons uses rest inductionHypothesis =>
      rw [surplus, List.flatten_cons, List.count_append]
      split_ifs
      · omega
      · omega

theorem surplus_zero_iff (k : K) (sources : List (List K)) :
    surplus k sources = 0 ↔
      forall uses, uses ∈ sources.find? (fun uses => decide (k ∈ uses)) -> uses.count k = 1 := by
  induction sources with
  | nil => exact ⟨fun _ uses impossible => (by cases impossible), fun _ => rfl⟩
  | cons uses rest inductionHypothesis =>
      rw [surplus]
      by_cases used : k ∈ uses
      · have positive : 0 < uses.count k := List.count_pos_iff.mpr used
        rw [if_pos used, List.find?_cons_of_pos (by simpa using used)]
        constructor
        · rintro once other (rfl | _)
          omega
        · intro once
          have counted := once uses rfl
          omega
      · rw [if_neg used, List.find?_cons_of_neg (by simpa using used)]
        exact inductionHypothesis

/-- The collected counts are exact if and only if no use is counted twice. -/
theorem collect_exact_iff (few : (own :: sources).flatten.length < m) :
    (forall k count, collect m own sources k = some count ->
      count = (own :: sources).flatten.count k) ↔
      FirstMetOnce own sources := by
  have small : forall k, (own :: sources).flatten.count k < m :=
    fun k => Nat.lt_of_le_of_lt List.count_le_length few
  constructor
  · intro exact k used new
    rw [← surplus_zero_iff]
    have total : (own :: sources).flatten.count k = sources.flatten.count k := by
      rw [List.flatten_cons, List.count_append, List.count_eq_zero_of_not_mem new, Nat.zero_add]
    have positive : 0 < sources.flatten.count k := List.count_pos_iff.mpr used
    have collected := collect_apply (small k)
    rw [if_neg new, if_neg (by omega)] at collected
    have counted := exact k _ collected
    have bound := surplus_le k sources
    have below := small k
    by_contra excess
    by_cases wraps : (own :: sources).flatten.count k + surplus k sources < m
    · rw [Nat.mod_eq_of_lt wraps] at counted
      omega
    · rw [Nat.mod_eq_sub_mod (by omega), Nat.mod_eq_of_lt (by omega)] at counted
      omega
  · intro once k count known
    have collected := collect_apply (small k)
    rw [known] at collected
    split_ifs at collected with unused old
    · rw [Nat.add_zero, Nat.mod_eq_of_lt (small k)] at collected
      exact Option.some.inj collected
    · have none : surplus k sources = 0 := by
        rw [surplus_zero_iff]
        refine once k ?_ old
        rw [List.flatten_cons, List.count_append, List.count_eq_zero_of_not_mem old,
          Nat.zero_add] at unused
        exact List.count_pos_iff.mp (Nat.pos_of_ne_zero unused)
      rw [none, Nat.add_zero, Nat.mod_eq_of_lt (small k)] at collected
      exact Option.some.inj collected

/-- What is collected is known by some source. -/
theorem collect_isSome_iff (few : (own :: sources).flatten.length < m) :
    (Exists fun count => collect m own sources k = some count) ↔ k ∈ (own :: sources).flatten := by
  have collected := collect_apply (k := k) (Nat.lt_of_le_of_lt List.count_le_length few)
  rw [← List.count_pos_iff, collected]
  by_cases unused : (own :: sources).flatten.count k = 0
  · rw [if_pos unused, unused]
    exact ⟨fun impossible => (by cases impossible.choose_spec), fun positive => by omega⟩
  · rw [if_neg unused]
    exact ⟨fun _ => Nat.pos_of_ne_zero unused, fun _ => ⟨_, rfl⟩⟩

end Tally

/-- Lists sorted out by a key, and put together again. -/
theorem perm_flatMap_filter {A B : Type} [DecidableEq B] (key : A -> B) (keys : List B)
    (once : keys.Nodup)
    (items : List A) (covered : forall item, item ∈ items -> key item ∈ keys) :
    (keys.flatMap (fun k => items.filter (fun item => decide (key item = k)))).Perm items := by
  induction keys generalizing items with
  | nil =>
      cases items with
      | nil => exact List.Perm.refl _
      | cons item _ => exact absurd (covered item List.mem_cons_self) List.not_mem_nil
  | cons k keys inductionHypothesis =>
      have parts := List.nodup_cons.mp once
      have others : forall item, item ∈ items.filter (fun item => !decide (key item = k)) ->
          key item ∈ keys := by
        intro item member
        have kept := List.mem_filter.mp member
        refine (List.mem_cons.mp (covered item kept.1)).resolve_left (fun same => ?_)
        rw [same] at kept
        simp at kept
      have rest := inductionHypothesis parts.2 _ others
      have same : keys.flatMap (fun k' => (items.filter (fun item => !decide (key item = k))).filter
            (fun item => decide (key item = k'))) =
          keys.flatMap (fun k' => items.filter (fun item => decide (key item = k'))) := by
        apply List.flatMap_congr
        intro k' member
        rw [List.filter_filter]
        apply List.filter_congr
        intro item _
        by_cases isKey : key item = k'
        · have different : key item ≠ k := fun equal => parts.1 (equal ▸ isKey ▸ member)
          rw [decide_eq_true isKey, decide_eq_false different]
          rfl
        · rw [decide_eq_false isKey]
          rfl
      rw [same] at rest
      rw [List.flatMap_cons]
      exact (rest.append_left _).trans (List.filter_append_perm _ items)

end Foundation
end OsslScripts
