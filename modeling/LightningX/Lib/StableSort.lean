import Mathlib.Data.List.Sort

/-!
# Stable sorting by a key

Sorting by a key that keeps the order of elements with equal keys.  A list is
the stable sort of another one exactly when it is sorted and has, for every
key, the same elements in the same order.
-/

namespace LightningX.StableSort

open List

variable {α κ : Type} [LinearOrder κ] {key : α → κ} {items : List α}

/-- Sort by a key, keeping the order of elements with equal keys. -/
def sortByKey (key : α → κ) (items : List α) : List α :=
  items.insertionSort fun first second => key first ≤ key second

/-- The elements with a given key, in their order. -/
def bucket (key : α → κ) (value : κ) (items : List α) : List α :=
  items.filter fun item => decide (key item = value)

theorem pairwise_sortByKey (key : α → κ) (items : List α) :
    (sortByKey key items).Pairwise fun first second => key first ≤ key second := by
  have : Std.Total fun first second : α => key first ≤ key second :=
    ⟨fun first second => le_total (key first) (key second)⟩
  have : IsTrans α fun first second => key first ≤ key second :=
    ⟨fun _ _ _ early late => le_trans early late⟩
  exact pairwise_insertionSort _ items

/-- Inserting an element puts it in front of its bucket. -/
theorem bucket_orderedInsert (item : α) (value : κ) (items : List α) :
    bucket key value
        (items.orderedInsert (fun first second => key first ≤ key second) item) =
      bucket key value (item :: items) := by
  induction items with
  | nil => rfl
  | cons first rest ih =>
    rw [orderedInsert_cons]
    split_ifs with before
    · rfl
    · have ne : key item ≠ key first := fun equal => before equal.le
      unfold bucket at *
      by_cases isValue : key item = value
      · have firstNot : key first ≠ value := fun equal => ne (isValue.trans equal.symm)
        simp [isValue, firstNot, ih]
      · simp [isValue, filter_cons, ih]

/-- Sorting keeps every bucket. -/
theorem bucket_sortByKey (value : κ) (items : List α) :
    bucket key value (sortByKey key items) = bucket key value items := by
  induction items with
  | nil => rfl
  | cons item rest ih =>
    have inserted : sortByKey key (item :: rest) = (sortByKey key rest).orderedInsert
        (fun first second => key first ≤ key second) item := rfl
    rw [inserted, bucket_orderedInsert]
    unfold bucket at *
    rw [filter_cons, filter_cons, ih]

/-- Sorted lists with the same buckets are equal. -/
theorem eq_of_bucket_eq (firstSorted : first.Pairwise fun early late => key early ≤ key late)
    (secondSorted : second.Pairwise fun early late => key early ≤ key late)
    (buckets : ∀ value, bucket key value first = bucket key value second) : first = second := by
  induction first generalizing second with
  | nil =>
    cases second with
    | nil => rfl
    | cons item rest =>
      have same := buckets (key item)
      simp [bucket] at same
  | cons item rest ih =>
    cases second with
    | nil =>
      have same := buckets (key item)
      simp [bucket] at same
    | cons other others =>
      have members : ∀ {value : κ} {list list' : List α} {element : α},
          bucket key value list = bucket key value list' → element ∈ list →
            key element = value → element ∈ list' := by
        intro value list list' element same mem isValue
        have inBucket : element ∈ bucket key value list :=
          mem_filter.mpr ⟨mem, by simpa using isValue⟩
        rw [same] at inBucket
        exact (mem_filter.mp inBucket).1
      have itemMember := members (buckets (key item)) mem_cons_self rfl
      have otherMember := members (buckets (key other)).symm mem_cons_self rfl
      have otherLe : key other ≤ key item := by
        rcases mem_cons.mp itemMember with rfl | inOthers
        · exact le_rfl
        · exact (pairwise_cons.mp secondSorted).1 item inOthers
      have itemLe : key item ≤ key other := by
        rcases mem_cons.mp otherMember with rfl | inRest
        · exact le_rfl
        · exact (pairwise_cons.mp firstSorted).1 other inRest
      have sameKey : key other = key item := le_antisymm otherLe itemLe
      have heads := buckets (key item)
      simp only [bucket, filter_cons, sameKey, decide_true, if_true, List.cons.injEq] at heads
      obtain ⟨rfl, -⟩ := heads
      rw [ih (pairwise_cons.mp firstSorted).2 (pairwise_cons.mp secondSorted).2]
      intro value
      have same := buckets value
      simp only [bucket, filter_cons] at same ⊢
      split_ifs at same with isValue
      · exact (List.cons.inj same).2
      · exact same

/-- A sorted list with the buckets of `items` is their stable sort. -/
theorem eq_sortByKey (isSorted : sorted.Pairwise fun early late => key early ≤ key late)
    (buckets : ∀ value, bucket key value sorted = bucket key value items) :
    sorted = sortByKey key items :=
  eq_of_bucket_eq isSorted (pairwise_sortByKey key items) fun value =>
    (buckets value).trans (bucket_sortByKey value items).symm

end LightningX.StableSort
