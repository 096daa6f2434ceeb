import Mathlib.Data.List.Dedup
import Mathlib.Data.List.Induction
import Mathlib.Data.List.Count
import Mathlib.Data.List.Perm.Basic

namespace OsslScripts
namespace Foundation

/-!
# Interning

A table that numbers the keys of a sequence by their first occurrence and counts
how often each of them occurs.  The abstract table is `distinct`: the keys
without repetitions, in the order in which they first appear.  A concrete table
implements it when its `i`-th entry stands for the `i`-th distinct key.
-/

variable {K F : Type} [BEq K] [LawfulBEq K]

/-- The distinct keys in the order of their first occurrences. -/
def distinct (keys : List K) : List K :=
  keys.foldl (fun seen key => if key ∈ seen then seen else seen ++ [key]) []

theorem distinct_append (keys : List K) (key : K) :
    distinct (keys ++ [key]) =
      if key ∈ distinct keys then distinct keys else distinct keys ++ [key] := by
  unfold distinct
  rw [List.foldl_append, List.foldl_cons, List.foldl_nil]

theorem mem_distinct (keys : List K) (key : K) : key ∈ distinct keys ↔ key ∈ keys := by
  induction keys using List.reverseRecOn with
  | nil => exact Iff.rfl
  | append_singleton keys last inductionHypothesis =>
      rw [distinct_append, List.mem_append, List.mem_singleton]
      split_ifs with seen
      · rw [inductionHypothesis]
        constructor
        · exact Or.inl
        · rintro (before | rfl)
          · exact before
          · exact inductionHypothesis.mp seen
      · rw [List.mem_append, List.mem_singleton, inductionHypothesis]

theorem nodup_distinct (keys : List K) : (distinct keys).Nodup := by
  induction keys using List.reverseRecOn with
  | nil => exact List.nodup_nil
  | append_singleton keys last inductionHypothesis =>
      rw [distinct_append]
      split_ifs with seen
      · exact inductionHypothesis
      · refine List.nodup_append.mpr ⟨inductionHypothesis, List.nodup_singleton _, ?_⟩
        rintro key before other isLast rfl
        exact seen (List.mem_singleton.mp isLast ▸ before)

/-- The number of a key does not change when keys are added. -/
theorem idxOf_distinct_append {keys : List K} {key : K} (seen : key ∈ keys) (last : K) :
    (distinct (keys ++ [last])).idxOf key = (distinct keys).idxOf key := by
  rw [distinct_append]
  split_ifs
  · rfl
  · exact List.idxOf_append_of_mem ((mem_distinct keys key).mpr seen)

theorem idxOf_distinct_append_all {keys : List K} {key : K} (seen : key ∈ keys) (more : List K) :
    (distinct (keys ++ more)).idxOf key = (distinct keys).idxOf key := by
  induction more generalizing keys with
  | nil => rw [List.append_nil]
  | cons last more inductionHypothesis =>
      have split : keys ++ last :: more = (keys ++ [last]) ++ more := by simp
      rw [split, inductionHypothesis (List.mem_append_left _ seen), idxOf_distinct_append seen]

/-- A new key is numbered last. -/
theorem distinct_append_new {keys : List K} {key : K} (new : key ∉ keys) :
    distinct (keys ++ [key]) = distinct keys ++ [key] := by
  rw [distinct_append, if_neg (mt (mem_distinct keys key).mp new)]

theorem distinct_append_seen {keys : List K} {key : K} (seen : key ∈ keys) :
    distinct (keys ++ [key]) = distinct keys := by
  rw [distinct_append, if_pos ((mem_distinct keys key).mpr seen)]

/-- Equal numbers are equal keys. -/
theorem idxOf_distinct_inj {keys : List K} {first second : K} (isFirst : first ∈ keys) :
    (distinct keys).idxOf first = (distinct keys).idxOf second ↔ first = second :=
  List.idxOf_inj ((mem_distinct keys first).mpr isFirst)

/-! ## Keys and what they stand for -/

/-- A key that nothing else is read as occurs as often as what it is read as. -/
theorem count_map_of_apart [BEq F] [LawfulBEq F] (read : K -> F) {keys : List K} {key : K}
    (apart : forall other, other ∈ keys -> read other = read key -> other = key) :
    (keys.map read).count (read key) = keys.count key := by
  rw [List.count_eq_countP, List.count_eq_countP, List.countP_map]
  apply List.countP_congr
  intro other member
  simp only [Function.comp_apply, beq_iff_eq]
  exact ⟨apart other member, fun same => by rw [same]⟩

/-- The distinct keys are read as distinct things exactly if no two keys are read alike. -/
theorem perm_map_distinct_iff [DecidableEq F] (read : K -> F) (keys : List K) :
    ((distinct keys).map read).Perm (keys.map read).dedup ↔
      forall first, first ∈ keys -> forall second, second ∈ keys -> read first = read second ->
        first = second := by
  constructor
  · intro perm first isFirst second isSecond same
    have nodup : ((distinct keys).map read).Nodup := perm.nodup_iff.mpr (List.nodup_dedup _)
    exact List.inj_on_of_nodup_map nodup ((mem_distinct keys first).mpr isFirst)
      ((mem_distinct keys second).mpr isSecond) same
  · intro injective
    have nodup : ((distinct keys).map read).Nodup := by
      refine (nodup_distinct keys).map_on (fun first isFirst second isSecond same => ?_)
      exact injective first ((mem_distinct keys first).mp isFirst) second
        ((mem_distinct keys second).mp isSecond) same
    rw [List.perm_ext_iff_of_nodup nodup (List.nodup_dedup _)]
    intro value
    rw [List.mem_dedup, List.mem_map, List.mem_map]
    simp only [mem_distinct]

end Foundation
end OsslScripts
