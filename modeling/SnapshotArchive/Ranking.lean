/-!
# `SnapshotArchive.Ranking` — stable insertion and stable sorting

An order is given by a test `before` that says when one element comes strictly before another.
Elements of which neither comes before the other tie, and ties keep the order in which they came.

## Contents
- `insertStable`: put an element into an ordered list, behind those that it ties with.
- `mergeOnto`: merge two ordered lists; of two that tie the first list's element comes first.
- `sortStable`: order a list by sorting its halves and merging them.
- `sortStable_eq_mergeSort`: the result is that of `List.mergeSort`; `perm_sortStable`, `pairwise_sortStable`.
-/

namespace SnapshotArchive

variable {α : Type}

/-- Insert an element in front of the first one that comes strictly after it. -/
def insertStable (before : α → α → Bool) (x : α) : List α → List α
  | [] => [x]
  | y :: ys => if before x y then x :: y :: ys else y :: insertStable before x ys

/-! ## Merging -/

/-- Merge two ordered lists behind the elements of `done`, which stand in reverse. -/
def mergeOnto (before : α → α → Bool) (done : List α) : List α → List α → List α
  | [], ys => done.reverseAux ys
  | x :: xs, [] => done.reverseAux (x :: xs)
  | x :: xs, y :: ys =>
      if before y x then mergeOnto before (y :: done) (x :: xs) ys
      else mergeOnto before (x :: done) xs (y :: ys)
termination_by xs ys => xs.length + ys.length
decreasing_by all_goals simp only [List.length_cons]; omega

/-- What is done comes first, the merged lists after it. -/
theorem mergeOnto_eq (before : α → α → Bool) (done xs ys : List α) :
    mergeOnto before done xs ys = done.reverse ++ xs.merge ys (fun a b => !before b a) := by
  fun_induction mergeOnto before done xs ys with
  | case1 done ys => simp [List.reverseAux_eq]
  | case2 done x xs => simp [List.reverseAux_eq]
  | case3 done x xs y ys hbefore ih => simp [ih, hbefore]
  | case4 done x xs y ys hbefore ih => simp [ih, hbefore]

/-! ## Sorting -/

/-- Order a list; elements of which neither comes before the other keep their order. -/
def sortStable (before : α → α → Bool) : List α → List α
  | [] => []
  | [x] => [x]
  | x :: y :: xs =>
      let all := x :: y :: xs
      let half := (all.length + 1) / 2
      mergeOnto before [] (sortStable before (all.take half)) (sortStable before (all.drop half))
termination_by xs => xs.length
decreasing_by
  · simp only [List.length_take, List.length_cons]; omega
  · simp only [List.length_drop, List.length_cons]; omega

/-- Sorting by `before` is merge sort by "does not come after". -/
theorem sortStable_eq_mergeSort (before : α → α → Bool) (xs : List α) :
    sortStable before xs = xs.mergeSort (fun a b => !before b a) := by
  fun_induction sortStable before xs with
  | case1 => simp
  | case2 x => simp
  | case3 x y xs all half ihFront ihBack =>
      rw [mergeOnto_eq, ihFront, ihBack, List.mergeSort]
      simp [half, all]

theorem perm_sortStable (before : α → α → Bool) (elements : List α) :
    (sortStable before elements).Perm elements := by
  rw [sortStable_eq_mergeSort]
  exact List.mergeSort_perm elements _

/-- Sorting by a key makes the keys ascend. -/
theorem pairwise_sortStable {β : Type} [LE β] [LT β] [DecidableLT β] [Std.IsLinearOrder β] [Std.LawfulOrderLT β]
    (key : α → β) (elements : List α) :
    (sortStable (fun a b => decide (key a < key b)) elements).Pairwise fun a b => key a ≤ key b := by
  have hsorted : (sortStable (fun a b => decide (key a < key b)) elements).Pairwise
      fun a b => (!decide (key b < key a)) = true := by
    rw [sortStable_eq_mergeSort]
    apply List.pairwise_mergeSort
    · intro a b c hab hbc
      simp only [Bool.not_eq_true', decide_eq_false_iff_not, Std.not_lt] at hab hbc ⊢
      exact Std.le_trans hab hbc
    · intro a b
      simpa [Std.not_lt] using Std.le_total (a := key a) (b := key b)
  apply hsorted.imp
  intro a b hab
  simpa [Std.not_lt] using hab

end SnapshotArchive
