import Mathlib.Algebra.Order.BigOperators.Group.List
import Mathlib.Algebra.Order.Ring.Int
import Mathlib.Data.List.Induction

namespace OsslScripts
namespace Foundation

/-!
# Running totals

A quantity that starts at 0 and takes one change after the other, each of them
positive or negative: its total after every change, what was added and what was
taken away in all, and the highest total.
-/

/-- The totals after each change. -/
def runningTotals : Int -> List Int -> List Int
  | _, [] => []
  | total, change :: rest => (total + change) :: runningTotals (total + change) rest

/-- What a change adds. -/
def increase (change : Int) : Int := if change < 0 then 0 else change

/-- What a change takes away. -/
def decrease (change : Int) : Int := if change < 0 then -change else 0

/-- The highest total, the first one included. -/
def peakTotal (changes : List Int) : Int := (runningTotals 0 changes).foldl max 0

section Lists

variable {changes : List Int} {change : Int}

theorem runningTotals_append (total : Int) (first second : List Int) :
    runningTotals total (first ++ second) =
      runningTotals total first ++ runningTotals (total + first.sum) second := by
  induction first generalizing total with
  | nil => simp [runningTotals]
  | cons change rest inductionHypothesis =>
      rw [List.cons_append, runningTotals, runningTotals, inductionHypothesis, List.cons_append,
        List.sum_cons, Int.add_assoc]

/-- One more change, and the total after it. -/
theorem runningTotals_concat (changes : List Int) (change : Int) :
    runningTotals 0 (changes ++ [change]) = runningTotals 0 changes ++ [changes.sum + change] := by
  rw [runningTotals_append, Int.zero_add]
  rfl

theorem sum_eq_increases (changes : List Int) :
    changes.sum = (changes.map increase).sum - (changes.map decrease).sum := by
  induction changes with
  | nil => rfl
  | cons change rest inductionHypothesis =>
      have parts : change = increase change - decrease change := by
        unfold increase decrease
        split_ifs <;> omega
      rw [List.map_cons, List.map_cons, List.sum_cons, List.sum_cons, List.sum_cons]
      omega

theorem decreases_nonneg (changes : List Int) : 0 ≤ (changes.map decrease).sum := by
  apply List.sum_nonneg
  intro part member
  rcases List.mem_map.mp member with ⟨change, -, rfl⟩
  unfold decrease
  split_ifs <;> omega

theorem sum_le_increases (changes : List Int) : changes.sum ≤ (changes.map increase).sum := by
  have parts := sum_eq_increases changes
  have taken := decreases_nonneg changes
  omega

/-- What is taken away is minus the sum of the negative changes. -/
theorem decreases_eq_negatives (changes : List Int) :
    (changes.map decrease).sum = -(changes.filter (fun change => change < 0)).sum := by
  induction changes with
  | nil => rfl
  | cons change rest inductionHypothesis =>
      rw [List.map_cons, List.sum_cons, inductionHypothesis, decrease]
      by_cases negative : change < 0
      · rw [if_pos negative, List.filter_cons, if_pos (decide_eq_true negative), List.sum_cons]
        omega
      · rw [if_neg negative, List.filter_cons,
          if_neg (fun test => negative (of_decide_eq_true test)), Int.zero_add]

theorem peakTotal_concat (changes : List Int) (change : Int) :
    peakTotal (changes ++ [change]) = max (peakTotal changes) (changes.sum + change) := by
  rw [peakTotal, runningTotals_concat, List.foldl_append]
  rfl

/-- The total is at most the highest one. -/
theorem sum_le_peakTotal (changes : List Int) : changes.sum ≤ peakTotal changes := by
  induction changes using List.reverseRecOn with
  | nil => exact Int.le_refl 0
  | append_singleton before change _ =>
      rw [peakTotal_concat, List.sum_append, List.sum_singleton]
      exact Int.le_max_right _ _

end Lists

end Foundation
end OsslScripts
