import LightningX.Persist.Admission

/-!
# The rows of one order in a batch

A flush inserts the last upsert of an order, then deletes the order if any row
of the batch says so, then sets what its last fill says.  The frames of the
order may have come in another sequence.  This module says exactly when the
difference shows.
-/

namespace LightningX.Persist

open List
open Desk (DbOrderStatus)

/-- The filled amount and the status of an order. -/
abbrev Progress := Int × DbOrderStatus

namespace OrderColumns

variable (columns : OrderColumns)

/-- The columns an upsert sets in a row that exists. -/
def progress : Progress :=
  (columns.filledAtoms, columns.status)

def setProgress (progress : Progress) : OrderColumns :=
  { columns with filledAtoms := progress.1, status := progress.2 }

/-- The columns an upsert sets only in a row it inserts. -/
def terms : OrderColumns :=
  columns.setProgress (0, .pending)

theorem setProgress_eq_iff {columns other : OrderColumns} :
    columns.setProgress first = other.setProgress second ↔
      columns.terms = other.terms ∧ first = second := by
  simp only [terms, setProgress, OrderColumns.mk.injEq, Prod.ext_iff]
  tauto

end OrderColumns

def FillRow.progress (fill : FillRow) : Progress :=
  (fill.filledAtoms, fill.status)

/-- What a row does to one order. -/
inductive OrderOp
  | upsert (columns : OrderColumns)
  | delete
  | fill (row : FillRow)
  deriving DecidableEq

namespace OrderOp

variable {ops : List OrderOp}

/-- The change of the order's cell. -/
def change : OrderOp → Option OrderColumns → Option OrderColumns
  | upsert columns => upsertOrder columns
  | delete => fun _ => none
  | fill row => fillOrder row

def upsert? : OrderOp → Option OrderColumns
  | upsert columns => some columns
  | _ => none

def fill? : OrderOp → Option FillRow
  | fill row => some row
  | _ => none

variable (default : Progress)

/-- The progress that is set, if any. -/
def progressOr : OrderOp → Progress
  | upsert columns => columns.progress
  | delete => default
  | fill row => row.progress

/-- The upserts among the operations. -/
def upserts (ops : List OrderOp) : List OrderColumns :=
  ops.filterMap upsert?

/-- The fills among the operations. -/
def fills (ops : List OrderOp) : List FillRow :=
  ops.filterMap fill?

/-- The operations one after the other. -/
def sequential (ops : List OrderOp) (row : Option OrderColumns) : Option OrderColumns :=
  Table.changes (ops.map change) row

/-- The operations as one flush carries them out. -/
def batched (ops : List OrderOp) (row : Option OrderColumns) : Option OrderColumns :=
  Table.changes
    ((upserts ops).getLast?.toList.map upsertOrder ++
      (if delete ∈ ops then [fun _ => none] else []) ++
      (fills ops).getLast?.toList.map fillOrder) row

/-- The operations after the last deletion. -/
def afterDelete : List OrderOp → List OrderOp
  | [] => []
  | op :: rest =>
    if delete ∈ rest then afterDelete rest
    else if op = delete then rest
    else op :: rest

/-- A flush does to the order what its frames did one after the other: a deletion
is not followed by an upsert; without a deletion, an upsert is not the last after
a fill unless it repeats the fill, and upserts of an order that has no row yet
repeat its terms. -/
def Mergeable (row : Option OrderColumns) (ops : List OrderOp) : Prop :=
  if delete ∈ ops then upserts (afterDelete ops) = []
  else
    (row = none → ∀ first ∈ (upserts ops).head?, ∀ last ∈ (upserts ops).getLast?,
      first.terms = last.terms) ∧
    ∀ columns ∈ ops.getLast?.bind upsert?, ∀ fill ∈ (fills ops).getLast?,
      columns.progress = fill.progress
deriving Decidable

/-- The progress the operations end with. -/
def lastProgress (ops : List OrderOp) : Progress :=
  match ops.getLast? with
  | none => default
  | some op => op.progressOr default

/-- A default does not matter if nothing was deleted. -/
theorem lastProgress_congr (nonempty : ops ≠ []) (kept : delete ∉ ops) (first second : Progress) :
    lastProgress first ops = lastProgress second ops := by
  unfold lastProgress
  rw [List.getLast?_eq_getLast_of_ne_nil nonempty]
  have mem := getLast_mem nonempty
  cases last : ops.getLast nonempty with
  | upsert columns => rfl
  | delete => exact absurd (last ▸ mem) kept
  | fill row => rfl

theorem lastProgress_cons (kept : delete ∉ op :: ops) (default : Progress) :
    lastProgress default (op :: ops) = lastProgress (op.progressOr default) ops := by
  cases ops with
  | nil => rfl
  | cons next rest =>
    exact lastProgress_congr (by simp) (fun mem => kept (mem_cons_of_mem _ mem)) _ _

/-- A row that exists keeps its terms. -/
theorem sequential_some (kept : delete ∉ ops) (columns : OrderColumns) :
    sequential ops (some columns) =
      some (columns.setProgress (lastProgress columns.progress ops)) := by
  induction ops generalizing columns with
  | nil => rfl
  | cons op rest ih =>
    have keptRest : delete ∉ rest := fun mem => kept (mem_cons_of_mem _ mem)
    rw [lastProgress_cons kept]
    cases op with
    | upsert inserted => exact ih keptRest (columns.setProgress inserted.progress)
    | delete => simp at kept
    | fill row => exact ih keptRest (columns.setProgress row.progress)

/-- An order without a row gets one from its first upsert. -/
theorem sequential_none (kept : delete ∉ ops) :
    sequential ops none =
      (upserts ops).head?.map fun columns =>
        columns.setProgress (lastProgress columns.progress ops) := by
  induction ops with
  | nil => rfl
  | cons op rest ih =>
    have keptRest : delete ∉ rest := fun mem => kept (mem_cons_of_mem _ mem)
    cases op with
    | upsert columns =>
      show sequential rest (some columns) = _
      rw [sequential_some keptRest]
      simp [upserts, upsert?, lastProgress_cons kept, progressOr]
    | delete => simp at kept
    | fill row =>
      show sequential rest none = _
      rw [ih keptRest]
      show _ = (upserts rest).head?.map _
      cases inserted : (upserts rest).head? with
      | none => rfl
      | some columns =>
        have nonempty : rest ≠ [] := by
          rintro rfl
          simp [upserts] at inserted
        simp only [Option.map_some]
        rw [lastProgress_cons kept, lastProgress_congr nonempty keptRest]

section

variable (deleted : delete ∈ ops) (row : Option OrderColumns)
include deleted

/-- Only what follows the last deletion matters. -/
theorem sequential_afterDelete :
    sequential ops row = sequential (afterDelete ops) none ∧ delete ∉ afterDelete ops := by
  induction ops generalizing row with
  | nil => simp at deleted
  | cons op rest ih =>
    unfold afterDelete
    by_cases later : delete ∈ rest
    · rw [if_pos later]
      exact ih later (op.change row)
    · have here : op = delete := by
        rcases mem_cons.mp deleted with here | mem
        · exact here.symm
        · exact absurd mem later
      rw [if_neg later, here]
      exact ⟨rfl, later⟩

/-- A deleted order stays away unless it is inserted again. -/
theorem sequential_deleted : sequential ops row = none ↔ upserts (afterDelete ops) = [] := by
  obtain ⟨same, kept⟩ := sequential_afterDelete deleted row
  rw [same, sequential_none kept]
  simp

theorem batched_deleted : batched ops row = none := by
  unfold batched
  rw [if_pos deleted]
  cases (fills ops).getLast? <;> cases (upserts ops).getLast? <;> rfl

end

/-- The progress of the last fill, or of the last upsert if there is no fill. -/
def batchedProgress (ops : List OrderOp) : Progress :=
  match (fills ops).getLast? with
  | some row => row.progress
  | none =>
    match (upserts ops).getLast? with
    | some columns => columns.progress
    | none => default

theorem batched_some (kept : delete ∉ ops) (columns : OrderColumns) :
    batched ops (some columns) =
      some (columns.setProgress (batchedProgress columns.progress ops)) := by
  unfold batched batchedProgress
  rw [if_neg kept]
  cases (fills ops).getLast? <;> cases (upserts ops).getLast? <;> rfl

theorem batched_none (kept : delete ∉ ops) :
    batched ops none =
      (upserts ops).getLast?.map fun columns =>
        columns.setProgress (batchedProgress columns.progress ops) := by
  unfold batched batchedProgress
  rw [if_neg kept]
  cases (fills ops).getLast? <;> cases (upserts ops).getLast? <;> rfl

theorem getLast?_filterMap_append_singleton {α β : Type} (choose : α → Option β)
    (list : List α) (last : α) :
    ((list ++ [last]).filterMap choose).getLast? =
      (choose last).or (list.filterMap choose).getLast? := by
  cases chosen : choose last with
  | none => simp [chosen]
  | some value => simp [chosen]

/-- Without a deletion the last operation decides, unless it is an upsert and there
are fills. -/
theorem lastProgress_eq_batchedProgress_iff (kept : delete ∉ ops) (default : Progress) :
    lastProgress default ops = batchedProgress default ops ↔
      ∀ columns ∈ ops.getLast?.bind upsert?, ∀ fill ∈ (fills ops).getLast?,
        columns.progress = fill.progress := by
  induction ops using List.reverseRecOn with
  | nil => simp [lastProgress, batchedProgress, fills, upserts]
  | append_singleton before op =>
    unfold lastProgress batchedProgress fills upserts
    rw [getLast?_filterMap_append_singleton]
    cases op with
    | upsert columns =>
      cases (before.filterMap fill?).getLast? with
      | none => simp [upsert?, fill?, progressOr]
      | some row => simp [upsert?, progressOr]
    | delete => simp at kept
    | fill row => simp [upsert?, fill?, progressOr]

/-- Deciding when one flush does what the operations did one after the other. -/
theorem batched_eq_sequential_iff (ops : List OrderOp) (row : Option OrderColumns) :
    batched ops row = sequential ops row ↔ Mergeable row ops := by
  unfold Mergeable
  by_cases deleted : delete ∈ ops
  · rw [if_pos deleted, batched_deleted deleted, eq_comm, sequential_deleted deleted]
  · rw [if_neg deleted]
    cases row with
    | some columns =>
      rw [batched_some deleted, sequential_some deleted, Option.some.injEq,
        OrderColumns.setProgress_eq_iff, eq_comm (a := batchedProgress _ _),
        lastProgress_eq_batchedProgress_iff deleted]
      simp
    | none =>
      rw [batched_none deleted, sequential_none deleted]
      cases inserted : upserts ops with
      | nil =>
        have noUpsert : ops.getLast?.bind upsert? = none := by
          cases last : ops.getLast? with
          | none => rfl
          | some op =>
            have mem := mem_of_getLast? last
            simpa [upserts] using
              filterMap_eq_nil_iff.mp inserted op mem
        simp [noUpsert]
      | cons first rest =>
        obtain ⟨last, isLast⟩ : ∃ last, (first :: rest).getLast? = some last :=
          ⟨_, List.getLast?_cons⟩
        have nonempty : ops ≠ [] := by
          rintro rfl
          simp [upserts] at inserted
        rw [isLast]
        simp only [List.head?_cons, Option.map_some, Option.some.injEq,
          OrderColumns.setProgress_eq_iff, Option.mem_def, forall_eq', true_implies]
        rw [lastProgress_congr nonempty deleted _ last.progress, eq_comm,
          eq_comm (a := batchedProgress _ _), lastProgress_eq_batchedProgress_iff deleted]
        rfl

end OrderOp
end LightningX.Persist
