import Mathlib.Data.List.Induction
import SnapshotArchive.Health.Monitor

/-!
# `Proofs.WorstBlocks` — the worst blocks of a column are the first of all its blocks in order

A monitor keeps ten blocks. A new block is put in its place among them, and what is then the eleventh is forgotten for
good. Nothing is lost by that: sorting all blocks of the column by their ratios, with those of one ratio in the order in
which they came, and taking the first ten gives the same list.

Where a block goes is decided by the blocks in front of it, so what lies behind the tenth place may be forgotten
(`take_insertStable_take`). That this is the place that a stable sort gives it is seen one ratio at a time: a list in
order is determined by its elements of each key, and neither inserting nor sorting reorders those.

## Contents
- **Order by a key.** `AscendingBy`, `withKey`, and `eq_of_withKey_eq`.
- **Inserting and sorting.** `withKey_insertStable`, `withKey_mergeSort`; `mergeSort_concat`, sorting with one more
  element behind the others is inserting it.
- **The first places.** `take_insertStable_take`.
- **Worst blocks.** `WorstBlock.inOrder`; the step `Monitor.worst_update`, the run `Monitor.worst_updates`, and the main
  result `Monitor.worst_leads`.
-/

namespace SnapshotArchive

/-! ## Order by a key -/

section Key

variable {α : Type} {key : α → Int} {x y : α} {xs ys : List α} {k : Int}

/-- The keys ascend along a list; elements of one key may stand in any order. -/
def AscendingBy (key : α → Int) (xs : List α) : Prop := xs.Pairwise fun a b => key a ≤ key b

/-- The elements of one key, in the order of the list. -/
def withKey (key : α → Int) (k : Int) (xs : List α) : List α := xs.filter fun a => key a = k

theorem mem_withKey : x ∈ withKey key k xs ↔ x ∈ xs ∧ key x = k := by
  simp [withKey]

theorem withKey_cons :
    withKey key k (x :: xs) = if key x = k then x :: withKey key k xs else withKey key k xs := by
  by_cases hkey : key x = k <;> simp [withKey, hkey]

theorem withKey_append : withKey key k (xs ++ ys) = withKey key k xs ++ withKey key k ys := List.filter_append xs ys

/-- No key comes before that of the head. -/
theorem AscendingBy.le_of_mem (h : AscendingBy key (x :: xs)) (hy : y ∈ x :: xs) : key x ≤ key y := by
  rcases List.mem_cons.mp hy with rfl | hy
  · exact Int.le_refl _
  · exact (List.pairwise_cons.mp h).1 y hy

theorem mem_of_withKey_eq (h : ∀ k, withKey key k xs = withKey key k ys) (hx : x ∈ xs) : x ∈ ys := by
  have hown : x ∈ withKey key (key x) xs := mem_withKey.mpr ⟨hx, rfl⟩
  rw [h] at hown
  exact (mem_withKey.mp hown).1

/-- **A list in order is determined by its elements of each key.** -/
theorem eq_of_withKey_eq (hxs : AscendingBy key xs) (hys : AscendingBy key ys)
    (h : ∀ k, withKey key k xs = withKey key k ys) : xs = ys := by
  induction xs generalizing ys with
  | nil =>
      symm
      apply List.eq_nil_iff_forall_not_mem.mpr
      intro y hy
      exact absurd (mem_of_withKey_eq (fun k => (h k).symm) hy) List.not_mem_nil
  | cons x xs ih =>
      have hx : x ∈ ys := mem_of_withKey_eq h List.mem_cons_self
      cases ys with
      | nil => exact absurd hx List.not_mem_nil
      | cons y ys =>
          have hy : y ∈ x :: xs := mem_of_withKey_eq (fun k => (h k).symm) List.mem_cons_self
          -- both heads have the least key, so they are the first elements of one and the same key
          have hkey : key y = key x := Int.le_antisymm (hys.le_of_mem hx) (hxs.le_of_mem hy)
          have hheads := h (key x)
          rw [withKey_cons, withKey_cons, if_pos rfl, if_pos hkey] at hheads
          obtain rfl := (List.cons.inj hheads).1
          refine congrArg (x :: ·) (ih (List.pairwise_cons.mp hxs).2 (List.pairwise_cons.mp hys).2 ?_)
          intro k
          have htails := h k
          rw [withKey_cons, withKey_cons] at htails
          split at htails
          · exact (List.cons.inj htails).2
          · exact htails

/-! ## Inserting and sorting -/

/-- One element comes before another. -/
def keyBefore (key : α → Int) (a b : α) : Bool := key a < key b

/-- One element does not come after another. -/
def keyNotAfter (key : α → Int) (a b : α) : Bool := key a ≤ key b

theorem mem_insertStable {before : α → α → Bool} : y ∈ insertStable before x xs ↔ y = x ∨ y ∈ xs := by
  induction xs with
  | nil => simp [insertStable]
  | cons z xs ih =>
      rw [insertStable]
      split
      · simp
      · rw [List.mem_cons, ih, List.mem_cons]
        exact or_left_comm

theorem ascendingBy_insertStable (h : AscendingBy key xs) : AscendingBy key (insertStable (keyBefore key) x xs) := by
  induction xs with
  | nil => exact List.pairwise_singleton _ _
  | cons y xs ih =>
      obtain ⟨hhead, htail⟩ := List.pairwise_cons.mp h
      rw [insertStable]
      by_cases hbefore : key x < key y
      · rw [keyBefore, decide_eq_true hbefore, if_pos rfl]
        refine List.pairwise_cons.mpr ⟨fun z hz => ?_, h⟩
        exact Int.le_trans (Int.le_of_lt hbefore) (h.le_of_mem hz)
      · rw [keyBefore, decide_eq_false hbefore, if_neg nofun]
        refine List.pairwise_cons.mpr ⟨fun z hz => ?_, ih htail⟩
        rcases mem_insertStable.mp hz with rfl | hz
        · exact Int.not_lt.mp hbefore
        · exact hhead z hz

/-- **An element goes behind those of its key.** -/
theorem withKey_insertStable (h : AscendingBy key xs) :
    withKey key k (insertStable (keyBefore key) x xs) = withKey key k (xs ++ [x]) := by
  induction xs with
  | nil => rfl
  | cons y xs ih =>
      rw [insertStable]
      by_cases hbefore : key x < key y
      · rw [keyBefore, decide_eq_true hbefore, if_pos rfl, withKey_append, withKey_cons]
        by_cases hkey : key x = k
        · -- none of the others has the key, since all of them come later
          have hnone : withKey key k (y :: xs) = [] := by
            apply List.eq_nil_iff_forall_not_mem.mpr
            intro z hz
            obtain ⟨hz, hzkey⟩ := mem_withKey.mp hz
            have hle := h.le_of_mem hz
            omega
          rw [if_pos hkey, hnone, withKey_cons, if_pos hkey]
          rfl
        · rw [if_neg hkey, withKey_cons (x := x), if_neg hkey]
          exact (List.append_nil _).symm
      · rw [keyBefore, decide_eq_false hbefore, if_neg nofun, List.cons_append, withKey_cons, withKey_cons,
          ih (List.pairwise_cons.mp h).2]

theorem keyNotAfter_trans (a b c : α) (hab : keyNotAfter key a b = true) (hbc : keyNotAfter key b c = true) :
    keyNotAfter key a c = true :=
  decide_eq_true (Int.le_trans (of_decide_eq_true hab) (of_decide_eq_true hbc))

theorem keyNotAfter_total (a b : α) : (keyNotAfter key a b || keyNotAfter key b a) = true := by
  simpa [keyNotAfter] using Int.le_total (key a) (key b)

theorem ascendingBy_mergeSort (key : α → Int) (xs : List α) : AscendingBy key (xs.mergeSort (keyNotAfter key)) :=
  (List.pairwise_mergeSort keyNotAfter_trans keyNotAfter_total xs).imp of_decide_eq_true

/-- **Sorting leaves the elements of one key in their order.** -/
theorem withKey_mergeSort (key : α → Int) (k : Int) (xs : List α) :
    withKey key k (xs.mergeSort (keyNotAfter key)) = withKey key k xs := by
  -- they are in order already, so that they are a sublist of the sorted list, and there are as many of them in it
  have htied : (withKey key k xs).Pairwise fun a b => keyNotAfter key a b = true := by
    apply List.pairwise_of_forall_mem_list
    intro a ha b hb
    exact decide_eq_true (Int.le_of_eq ((mem_withKey.mp ha).2.trans (mem_withKey.mp hb).2.symm))
  have hsublist : (withKey key k xs).Sublist (xs.mergeSort (keyNotAfter key)) :=
    List.sublist_mergeSort keyNotAfter_trans keyNotAfter_total htied List.filter_sublist
  have hown : (withKey key k xs).Sublist (withKey key k (xs.mergeSort (keyNotAfter key))) := by
    have hfiltered := hsublist.filter fun a => decide (key a = k)
    simpa only [withKey, List.filter_filter, Bool.and_self] using hfiltered
  have hlength : (withKey key k (xs.mergeSort (keyNotAfter key))).length = (withKey key k xs).length :=
    ((List.mergeSort_perm xs (keyNotAfter key)).filter _).length_eq
  exact (hown.eq_of_length hlength.symm).symm

/-- **Sorting with one more element behind the others is inserting it.** -/
theorem mergeSort_concat (key : α → Int) (xs : List α) (x : α) :
    (xs ++ [x]).mergeSort (keyNotAfter key) = insertStable (keyBefore key) x (xs.mergeSort (keyNotAfter key)) := by
  have hsorted := ascendingBy_mergeSort key xs
  apply eq_of_withKey_eq (ascendingBy_mergeSort key _) (ascendingBy_insertStable hsorted)
  intro k
  rw [withKey_mergeSort, withKey_insertStable hsorted, withKey_append, withKey_append, withKey_mergeSort]

/-! ## The first places -/

/-- **What lies behind the first places does not matter for them**, even if an element is put in front of it. -/
theorem take_insertStable_take (before : α → α → Bool) (n : Nat) (x : α) (xs : List α) :
    (insertStable before x (xs.take n)).take n = (insertStable before x xs).take n := by
  induction xs generalizing n with
  | nil => rw [List.take_nil]
  | cons y xs ih =>
      cases n with
      | zero => rfl
      | succ n =>
          rw [List.take_succ_cons, insertStable, insertStable]
          split
          · have hfront : (y :: xs.take n).take n = (y :: xs).take n := by
              rw [← List.take_succ_cons, List.take_take, Nat.min_eq_left (Nat.le_succ n)]
            rw [List.take_succ_cons, List.take_succ_cons, hfront]
          · rw [List.take_succ_cons, List.take_succ_cons, ih]

end Key

/-! ## Worst blocks -/

/-- What a report says of a block, if it is among the worst. -/
def WorstBlock.ofOutcome (metrics : Metrics) (outcome : Monitor.Outcome) : WorstBlock where
  block := outcome.index
  ratio := Monitor.payloadRatio outcome.input outcome.output
  entropy := metrics.uniqueRatio
  codecId := outcome.codecId

/-- The place of a block's ratio in the total order of all floats. -/
def WorstBlock.rank (block : WorstBlock) : Int := floatRank block.ratio

/-- The blocks by ascending ratio; those of one ratio stay in the order in which they came. -/
def WorstBlock.inOrder (blocks : List WorstBlock) : List WorstBlock :=
  blocks.mergeSort fun a b => a.rank ≤ b.rank

namespace Monitor

/-- The monitor after any updates, whatever they report. -/
def updates (monitor : Monitor) (calls : List (Metrics × Outcome)) : Monitor :=
  calls.foldl (fun monitor call => (monitor.update call.1 call.2).2) monitor

variable (monitor : Monitor)

theorem worst_update (metrics : Metrics) (outcome : Outcome) :
    (monitor.update metrics outcome).2.worst
      = (insertStable WorstBlock.isWorse (.ofOutcome metrics outcome) monitor.worst).take worstKept := rfl

theorem updates_concat (calls : List (Metrics × Outcome)) (call : Metrics × Outcome) :
    monitor.updates (calls ++ [call]) = ((monitor.updates calls).update call.1 call.2).2 := List.foldl_append

theorem worst_report : monitor.report.2.worst = monitor.worst := by
  unfold report
  cases monitor.phase <;> rfl

theorem worstBlocks_report : monitor.report.1.worstBlocks = monitor.worst := by
  unfold report
  cases monitor.phase <;> rfl

/-- **A new monitor keeps the first of all blocks in order.** The induction is on the blocks, the last of them apart. -/
theorem worst_updates (runId : String) (interval : Nat) (calls : List (Metrics × Outcome)) :
    ((new runId interval).updates calls).worst
      = (WorstBlock.inOrder (calls.map fun call => .ofOutcome call.1 call.2)).take worstKept := by
  induction calls using List.reverseRecOn with
  | nil =>
      rw [List.map_nil, WorstBlock.inOrder, List.mergeSort_nil]
      rfl
  | append_singleton calls call ih =>
      rw [updates_concat, worst_update, ih, take_insertStable_take, List.map_append]
      exact congrArg (List.take worstKept) (mergeSort_concat WorstBlock.rank _ _).symm

/-- **The worst blocks are the first ten of all blocks in order.** A new monitor takes in any updates. What it has kept
    then is what it reports, and goes on keeping: the first ten blocks when all of them are sorted by their ratios, in
    the total order of floats, with those of one ratio in the order in which they came. So the ratios ascend; there are
    ten blocks, or all of them if they are fewer; of the blocks with one ratio it is the earliest that are kept,
    earliest first; and none of the blocks that are not kept has a lesser ratio than one that is. -/
theorem worst_leads (runId : String) (interval : Nat) (calls : List (Metrics × Outcome)) :
    let blocks : List WorstBlock := calls.map fun call => .ofOutcome call.1 call.2
    let monitor := (new runId interval).updates calls
    monitor.worst = (blocks.mergeSort fun a b => floatRank a.ratio ≤ floatRank b.ratio).take 10 ∧
      monitor.report.1.worstBlocks = monitor.worst ∧ monitor.report.2.worst = monitor.worst ∧
      (monitor.worst.Pairwise fun a b => floatRank a.ratio ≤ floatRank b.ratio) ∧
      monitor.worst.length = min 10 calls.length ∧
      (∀ rank : Int, (monitor.worst.filter fun block => floatRank block.ratio = rank)
        <+: blocks.filter fun block => floatRank block.ratio = rank) ∧
      ∃ others, (monitor.worst ++ others).Perm blocks ∧
        ∀ kept ∈ monitor.worst, ∀ other ∈ others, floatRank kept.ratio ≤ floatRank other.ratio := by
  intro blocks monitor
  have hworst : monitor.worst = (WorstBlock.inOrder blocks).take worstKept := worst_updates runId interval calls
  have hascending : AscendingBy WorstBlock.rank (WorstBlock.inOrder blocks) := ascendingBy_mergeSort _ _
  have hperm : (WorstBlock.inOrder blocks).Perm blocks := List.mergeSort_perm _ _
  refine ⟨hworst, worstBlocks_report monitor, worst_report monitor, ?_, ?_, ?_,
    (WorstBlock.inOrder blocks).drop worstKept, ?_, ?_⟩
  · rw [hworst]
    exact hascending.sublist (List.take_sublist _ _)
  · rw [hworst, List.length_take, hperm.length_eq, List.length_map]
    rfl
  · intro rank
    have hprefix : withKey WorstBlock.rank rank ((WorstBlock.inOrder blocks).take worstKept)
        <+: withKey WorstBlock.rank rank (WorstBlock.inOrder blocks) :=
      (List.take_prefix _ _).filter _
    have hties : withKey WorstBlock.rank rank (WorstBlock.inOrder blocks) = withKey WorstBlock.rank rank blocks :=
      withKey_mergeSort _ _ _
    rw [← hworst, hties] at hprefix
    exact hprefix
  · rw [hworst, List.take_append_drop]
    exact hperm
  · rw [hworst]
    rw [← List.take_append_drop worstKept (WorstBlock.inOrder blocks)] at hascending
    exact (List.pairwise_append.mp hascending).2.2

end Monitor

end SnapshotArchive
