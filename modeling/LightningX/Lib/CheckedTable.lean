import LightningX.Lib.Table

/-!
# Statements under constraints

A row that a statement proposes to insert is checked before the statement looks
for a row of the same key, and the table is checked again after each row.  A
statement passes if no check fails on the way.
-/

namespace LightningX

open List

/-- A write of a statement, with the row it proposes to insert if there is one. -/
structure Proposal (κ ρ : Type) extends Write κ ρ where
  proposed : Option ρ

namespace Table

variable [DecidableEq κ]

variable {check : ρ → Prop} {table : Table κ ρ} {list : List (Proposal κ ρ)}

/-- Every row passes a check. -/
def All (check : ρ → Prop) (table : Table κ ρ) : Prop :=
  ∀ key, ∀ row ∈ table.lookup key, check row

theorem all_iff_keys (check : ρ → Prop) (table : Table κ ρ) :
    (∀ key ∈ table.keys, ∀ row ∈ table.lookup key, check row) ↔ table.All check := by
  refine ⟨fun all key row found => all key ?_ row found, fun all key _ => all key⟩
  exact Finmap.mem_keys.mpr (Finmap.mem_of_lookup_eq_some found)

instance (check : ρ → Prop) [DecidablePred check] (table : Table κ ρ) :
    Decidable (table.All check) :=
  decidable_of_iff _ (all_iff_keys check table)

/-- The statement passes: its proposals are checked, and the table after each row is
valid. -/
def Passes (valid : Table κ ρ → Prop) (check : ρ → Prop) (table : Table κ ρ) :
    List (Proposal κ ρ) → Prop
  | [] => True
  | proposal :: rest =>
    (∀ row ∈ proposal.proposed, check row) ∧ valid (table.write proposal.toWrite) ∧
      Passes valid check (table.write proposal.toWrite) rest

instance Passes.decide (valid : Table κ ρ → Prop) [DecidablePred valid] (check : ρ → Prop)
    [DecidablePred check] (table : Table κ ρ) :
    (list : List (Proposal κ ρ)) → Decidable (Passes valid check table list)
  | [] => isTrue trivial
  | proposal :: rest =>
    have := Passes.decide valid check (table.write proposal.toWrite) rest
    inferInstanceAs (Decidable (_ ∧ _ ∧ _))

/-- A statement that passes leaves a valid table. -/
theorem Passes.valid_writes (passes : Passes valid check table list) (isValid : valid table) :
    valid (table.writes (list.map (·.toWrite))) := by
  induction list generalizing table with
  | nil => exact isValid
  | cons proposal rest ih => exact ih passes.2.2 passes.2.1

theorem All.write_iff (all : table.All check) (write : Write κ ρ) :
    (table.write write).All check ↔ ∀ row ∈ write.change (table.lookup write.key), check row := by
  constructor
  · intro allAfter row found
    refine allAfter write.key row ?_
    rw [lookup_write, if_pos rfl]
    exact found
  · intro checked key row found
    rw [lookup_write] at found
    split_ifs at found with here
    · subst here
      exact checked row found
    · exact all key row found

/-- Rows that replace what is there, or leave it, only have to be checked
themselves. -/
theorem All.passes_iff
    (all : table.All check)
    (harmless : ∀ proposal ∈ list, (∀ row ∈ proposal.proposed, check row) →
      ∀ old : Option ρ, (∀ row ∈ old, check row) → ∀ row ∈ proposal.change old, check row) :
    Passes (All check) check table list ↔
      ∀ proposal ∈ list, ∀ row ∈ proposal.proposed, check row := by
  induction list generalizing table with
  | nil => simp [Passes]
  | cons proposal rest ih =>
    have harmlessRest := fun other mem => harmless other (mem_cons_of_mem proposal mem)
    rw [forall_mem_cons]
    constructor
    · rintro ⟨checked, allAfter, passes⟩
      exact ⟨checked, (ih allAfter harmlessRest).mp passes⟩
    · rintro ⟨checked, checkedRest⟩
      have allAfter := (all.write_iff proposal.toWrite).mpr
        (harmless proposal mem_cons_self checked _ (all proposal.key))
      exact ⟨checked, allAfter, (ih allAfter harmlessRest).mpr checkedRest⟩

/-- Rows that overwrite cells pass if they are checked themselves. -/
theorem All.passes_overwrite_iff {α : Type}
    (all : table.All check) (key : α → κ) (columns : α → Option ρ) (rows : List α) :
    Passes (All check) check table
        (rows.map fun row => ⟨⟨key row, fun _ => columns row⟩, columns row⟩) ↔
      ∀ row ∈ rows, ∀ written ∈ columns row, check written := by
  rw [all.passes_iff]
  · rw [forall_mem_map]
  · rw [forall_mem_map]
    exact fun row _ checked old _ => checked

end Table
end LightningX
