import Mathlib.Data.Finmap
import Mathlib.Algebra.Order.Ring.Int

/-!
# Tables and lists of writes

A table holds at most one row for each key, in no particular order.  A write
changes the cell of one key, whatever it holds; a statement is a list of writes.
What a list of writes leaves in a cell depends only on the writes to that cell.
-/

namespace LightningX

open List Finmap

/-- A finite set of rows with distinct keys. -/
abbrev Table (κ ρ : Type) := Finmap fun _ : κ => ρ

/-- A change of the cell of one key. -/
structure Write (κ ρ : Type) where
  key : κ
  change : Option ρ → Option ρ

namespace Table

variable {σ α : Type} [DecidableEq κ]

variable {table : Table κ ρ}

/-- Carry out a write. -/
def write (table : Table κ ρ) (write : Write κ ρ) : Table κ ρ :=
  match write.change (table.lookup write.key) with
  | none => table.erase write.key
  | some row => table.insert write.key row

/-- Carry out writes one after the other. -/
def writes (table : Table κ ρ) (list : List (Write κ ρ)) : Table κ ρ :=
  list.foldl write table

def cell (key : κ) (list : List (Write κ ρ)) : List (Option ρ → Option ρ) :=
  (list.filter fun write => write.key = key).map (·.change)

/-- Changes of one cell, one after the other. -/
def changes (list : List (Option ρ → Option ρ)) (row : Option ρ) : Option ρ :=
  list.foldl (fun row change => change row) row

theorem lookup_write (table : Table κ ρ) (write : Write κ ρ) (key : κ) :
    (table.write write).lookup key =
      if key = write.key then write.change (table.lookup key) else table.lookup key := by
  unfold Table.write
  split_ifs with same
  · subst same
    cases found : write.change (table.lookup write.key) with
    | none => exact lookup_erase _ _
    | some row => exact lookup_insert _
  · cases found : write.change (table.lookup write.key) with
    | none => exact lookup_erase_ne same
    | some row => exact lookup_insert_of_ne _ same

@[simp] theorem writes_nil (table : Table κ ρ) : table.writes [] = table := rfl

@[simp] theorem writes_cons (table : Table κ ρ) (write : Write κ ρ) (list : List (Write κ ρ)) :
    table.writes (write :: list) = (table.write write).writes list := rfl

theorem writes_append (table : Table κ ρ) (first second : List (Write κ ρ)) :
    table.writes (first ++ second) = (table.writes first).writes second :=
  foldl_append

@[simp] theorem changes_nil (row : Option ρ) : changes [] row = row := rfl

@[simp] theorem changes_cons (change : Option ρ → Option ρ) (list : List (Option ρ → Option ρ))
    (row : Option ρ) : changes (change :: list) row = changes list (change row) := rfl

/-- A cell sees the writes to it alone. -/
theorem lookup_writes (table : Table κ ρ) (list : List (Write κ ρ)) (key : κ) :
    (table.writes list).lookup key = changes (cell key list) (table.lookup key) := by
  induction list generalizing table with
  | nil => rfl
  | cons write rest ih =>
    rw [writes_cons, ih, lookup_write]
    by_cases same : key = write.key
    · simp [cell, same]
    · simp [cell, same, Ne.symm same]

/-- Rows that are set do not remove others. -/
theorem mem_writes_map (key : α → κ) (row : α → ρ) (rows : List α) {table : Table κ ρ} {target : κ}
    (present : target ∈ table) :
    target ∈ table.writes (rows.map fun entry => ⟨key entry, fun _ => some (row entry)⟩) := by
  induction rows generalizing table with
  | nil => exact present
  | cons entry rest ih =>
    refine ih ?_
    rw [← Finmap.lookup_isSome] at present ⊢
    rw [lookup_write]
    split_ifs
    · rfl
    · exact present

/-- Rows with different keys that are kept unless their keys are taken. -/
theorem lookup_writes_of_nodup (key : α → κ) (row : α → ρ) {rows : List α}
    (distinct : (rows.map key).Nodup) (mem : entry ∈ rows)
    (free : table.lookup (key entry) = none) :
    (table.writes (rows.map fun entry => ⟨key entry, (·.or (some (row entry)))⟩)).lookup
      (key entry) = some (row entry) := by
  induction rows generalizing table with
  | nil => cases mem
  | cons first rest ih =>
    rw [map_cons, nodup_cons] at distinct
    rw [map_cons, writes_cons]
    obtain rfl | later := mem_cons.mp mem
    · have none : cell (key entry) (rest.map fun entry =>
          (⟨key entry, (·.or (some (row entry)))⟩ : Write κ ρ)) = [] := by
        rw [cell, map_eq_nil_iff, filter_eq_nil_iff]
        intro write isWrite
        obtain ⟨other, isOther, rfl⟩ := mem_map.mp isWrite
        simp only [decide_eq_true_eq]
        exact fun same => distinct.1 (mem_map.mpr ⟨other, isOther, same⟩)
      rw [lookup_writes, none, lookup_write, if_pos rfl, free]
      rfl
    · refine ih distinct.2 later ?_
      rw [lookup_write, if_neg, free]
      exact fun same => distinct.1 (mem_map.mpr ⟨entry, later, same⟩)

/-- Tables are equal if their cells are. -/
theorem eq_iff_lookup : table = other ↔ ∀ key, table.lookup key = other.lookup key :=
  ⟨fun same _ => same ▸ rfl, ext_lookup⟩

/-- Tables that agree cell by cell after two lists of writes. -/
theorem writes_eq_iff {other : Table κ ρ} :
    table.writes first = other.writes second ↔
      ∀ key, changes (cell key first) (table.lookup key) =
        changes (cell key second) (other.lookup key) := by
  rw [eq_iff_lookup]
  simp only [lookup_writes]

/-- Keep the last row of each key, in the order of the rows kept. -/
def keepLast (key : α → κ) : List α → List α
  | [] => []
  | row :: rest =>
    if ∃ other ∈ rest, key other = key row then keepLast key rest
    else row :: keepLast key rest

theorem keepLast_sublist (key : α → κ) (rows : List α) : (keepLast key rows).Sublist rows := by
  induction rows with
  | nil => exact List.Sublist.slnil
  | cons row rest ih =>
    unfold keepLast
    split_ifs
    · exact ih.cons row
    · exact ih.cons_cons row

theorem pairwise_keepLast (key : α → κ) (rows : List α) :
    (keepLast key rows).Pairwise fun first second => key first ≠ key second := by
  induction rows with
  | nil => exact List.Pairwise.nil
  | cons row rest ih =>
    unfold keepLast
    split_ifs with later
    · exact ih
    · refine pairwise_cons.mpr ⟨fun other kept same => ?_, ih⟩
      exact later ⟨other, (keepLast_sublist key rest).subset kept, same.symm⟩

/-- What is kept of the rows of a key is the last of them. -/
theorem filter_keepLast (key : α → κ) (rows : List α) (target : κ) :
    (keepLast key rows).filter (fun row => key row = target) =
      ((rows.filter fun row => key row = target).getLast?).toList := by
  induction rows with
  | nil => rfl
  | cons row rest ih =>
    unfold keepLast
    by_cases mine : key row = target
    · have first : (row :: rest).filter (fun row => key row = target) =
          row :: rest.filter fun row => key row = target := by
        simp [mine]
      rw [first]
      by_cases later : ∃ other ∈ rest, key other = key row
      · obtain ⟨other, mem, same⟩ := later
        have remaining : other ∈ rest.filter fun row => key row = target := by
          simp [mem, same, mine]
        rw [if_pos ⟨other, mem, same⟩, ih]
        cases filtered : rest.filter fun row => key row = target with
        | nil => simp [filtered] at remaining
        | cons head tail => rw [List.getLast?_cons_cons]
      · have empty : rest.filter (fun row => key row = target) = [] := by
          rw [filter_eq_nil_iff]
          intro other mem same
          exact later ⟨other, mem, (of_decide_eq_true same).trans mine.symm⟩
        rw [if_neg later, filter_cons, ih, empty]
        simp [mine]
    · have skip : (row :: rest).filter (fun row => key row = target) =
          rest.filter fun row => key row = target := by
        simp [mine]
      rw [skip, ← ih]
      split_ifs
      · rfl
      · simp [mine]

/-- The writes to a cell that come from rows with its key. -/
theorem cell_map (key : α → κ) (change : α → Option ρ → Option ρ) (rows : List α) (target : κ) :
    cell target (rows.map fun row => (⟨key row, change row⟩ : Write κ ρ)) =
      (rows.filter fun row => key row = target).map change := by
  induction rows with
  | nil => rfl
  | cons row rest ih =>
    unfold cell at ih ⊢
    by_cases mine : key row = target <;> simp [mine, ih]

theorem cell_append (key : κ) (first second : List (Write κ ρ)) :
    cell key (first ++ second) = cell key first ++ cell key second := by
  simp [cell]

/-- Of rows that overwrite a cell only the last counts. -/
theorem changes_constant (columns : α → Option ρ) (rows : List α) (row : Option ρ) :
    changes (rows.map fun written _ => columns written) row =
      changes (rows.getLast?.toList.map fun written _ => columns written) row := by
  induction rows generalizing row with
  | nil => rfl
  | cons first rest ih =>
    rw [map_cons, changes_cons, ih]
    cases rest with
    | nil => rfl
    | cons second rest => rfl

/-- Rows that overwrite cells may be reduced to the last of each key. -/
theorem writes_keepLast (key : α → κ) (columns : α → Option ρ) (rows : List α) (table : Table κ ρ) :
    table.writes ((keepLast key rows).map fun row => ⟨key row, fun _ => columns row⟩) =
      table.writes (rows.map fun row => ⟨key row, fun _ => columns row⟩) := by
  rw [writes_eq_iff]
  intro target
  rw [cell_map key (fun row _ => columns row), cell_map key (fun row _ => columns row),
    filter_keepLast, changes_constant columns (rows.filter _)]

def mapRows (change : κ → ρ → σ) (table : Table κ ρ) : Table κ σ where
  entries := table.entries.map fun entry => ⟨entry.1, change entry.1 entry.2⟩
  nodupKeys := by
    have keys : (table.entries.map fun entry : (_ : κ) × ρ =>
        (⟨entry.1, change entry.1 entry.2⟩ : (_ : κ) × σ)).keys = table.entries.keys := by
      unfold Multiset.keys
      rw [Multiset.map_map]
      rfl
    have distinct := table.nodupKeys.nodup_keys
    rw [← keys] at distinct
    exact Multiset.nodup_keys.mp distinct

theorem lookup_mapRows (change : κ → ρ → σ) (table : Table κ ρ) (key : κ) :
    (table.mapRows change).lookup key = (table.lookup key).map (change key) := by
  induction table using induction_on with
  | H rows => exact dlookup_map₂ key

/-- The rows of a table take the place of those of another. -/
theorem lookup_union (table other : Table κ ρ) (key : κ) :
    (table ∪ other).lookup key = (table.lookup key).or (other.lookup key) := by
  cases found : table.lookup key with
  | none =>
    rw [lookup_union_right (lookup_eq_none.mp found)]
    rfl
  | some row =>
    rw [lookup_union_left (mem_of_lookup_eq_some found), found]
    rfl

variable (measure : κ → ρ → Int)

/-- Sum of a quantity over a table. -/
def total (table : Table κ ρ) : Int :=
  (table.entries.map fun entry => measure entry.1 entry.2).sum

/-- The part of a sum that a cell contributes. -/
def share (key : κ) (row : Option ρ) : Int :=
  (row.map (measure key)).getD 0

theorem sum_kerase (key : κ) (rows : List ((_ : κ) × ρ)) :
    ((rows.kerase key).map fun entry => measure entry.1 entry.2).sum =
      (rows.map fun entry => measure entry.1 entry.2).sum -
        share measure key (rows.dlookup key) := by
  induction rows with
  | nil => rfl
  | cons entry rows ih =>
    obtain ⟨other, value⟩ := entry
    by_cases same : key = other
    · subst same
      simp [share]
    · rw [kerase_cons_ne (by exact same), dlookup_cons_ne _ _ same]
      simp only [map_cons, sum_cons]
      omega

/-- A write changes a sum by what it changes in its cell. -/
theorem total_write (table : Table κ ρ) (write : Write κ ρ) :
    total measure (table.write write) =
      total measure table + share measure write.key (write.change (table.lookup write.key)) -
        share measure write.key (table.lookup write.key) := by
  induction table using induction_on with
  | H rows =>
    have erased := sum_kerase measure write.key rows.entries
    have whole : total measure rows.toFinmap =
        (rows.entries.map fun entry => measure entry.1 entry.2).sum := rfl
    have looked : rows.toFinmap.lookup write.key = rows.entries.dlookup write.key := rfl
    unfold Table.write
    cases changed : write.change (rows.toFinmap.lookup write.key) with
    | none =>
      have after : total measure (rows.toFinmap.erase write.key) =
          ((rows.entries.kerase write.key).map fun entry => measure entry.1 entry.2).sum := rfl
      rw [looked, whole, after, erased, share, share]
      simp
    | some row =>
      have after : total measure (rows.toFinmap.insert write.key row) =
          measure write.key row + ((rows.entries.kerase write.key).map fun entry =>
            measure entry.1 entry.2).sum := rfl
      rw [looked, after, erased]
      simp only [share, Option.map_some, Option.getD_some]
      omega

end Table
end LightningX
