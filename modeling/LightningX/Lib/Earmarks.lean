import Mathlib.Algebra.Order.BigOperators.Group.List
import Mathlib.Algebra.Order.Ring.Int

/-!
# Earmarks

Amounts that are earmarked against a stock, each under a key.  The earmarks are backed when
those of each key add up to at most what the stock holds of it.
-/

namespace LightningX.Earmarks

variable {κ : Type} [DecidableEq κ]

/-- What is earmarked under a key. -/
def sum (key : κ) (marks : List (κ × Int)) : Int :=
  (marks.map fun mark => if mark.1 = key then mark.2 else 0).sum

@[simp] theorem sum_nil (key : κ) : sum key [] = 0 := rfl

@[simp] theorem sum_cons (key : κ) (mark : κ × Int) (marks : List (κ × Int)) :
    sum key (mark :: marks) = (if mark.1 = key then mark.2 else 0) + sum key marks := by
  simp [sum]

@[simp] theorem sum_append (key : κ) (marks more : List (κ × Int)) :
    sum key (marks ++ more) = sum key marks + sum key more := by
  simp [sum]

theorem sum_eq_zero {marks : List (κ × Int)} (others : ∀ mark ∈ marks, mark.1 ≠ key) :
    sum key marks = 0 := by
  apply List.sum_eq_zero
  intro part mem
  obtain ⟨mark, isMark, rfl⟩ := List.mem_map.mp mem
  exact if_neg (others mark isMark)

theorem sum_perm (perm : marks.Perm more) (key : κ) : sum key marks = sum key more :=
  (perm.map _).sum_eq

theorem sum_nonneg (positive : ∀ mark ∈ marks, 0 < mark.2) (key : κ) : 0 ≤ sum key marks := by
  apply List.sum_nonneg
  intro part mem
  obtain ⟨mark, isMark, rfl⟩ := List.mem_map.mp mem
  have := positive mark isMark
  split_ifs <;> omega

/-- The earmarks are positive, and of each key there is enough in stock. -/
structure Backed (stock : κ → Int) (marks : List (κ × Int)) : Prop where
  positive : ∀ mark ∈ marks, 0 < mark.2
  enough : ∀ key, sum key marks ≤ stock key

namespace Backed

variable {stock after : κ → Int} {marks : List (κ × Int)} {mark : κ × Int} {key : κ}

theorem nil (stays : ∀ key, 0 ≤ stock key) : Backed stock [] :=
  ⟨nofun, stays⟩

theorem perm (backed : Backed stock marks) (same : marks.Perm more) : Backed stock more where
  positive := fun mark mem => backed.positive mark (same.mem_iff.mpr mem)
  enough := fun key => (sum_perm same key).symm.trans_le (backed.enough key)

theorem mono (backed : Backed stock marks) (grows : ∀ key, stock key ≤ after key) :
    Backed after marks :=
  ⟨backed.positive, fun key => (backed.enough key).trans (grows key)⟩

section

variable (backed : Backed stock (mark :: marks))
include backed

/-- An earmark is spent, the whole of it or a part, and is gone. -/
theorem spend (within : amount ≤ mark.2)
    (leaves : ∀ key, stock key - (if mark.1 = key then amount else 0) ≤ after key) :
    Backed after marks := by
  refine ⟨fun other mem => backed.positive other (List.mem_cons_of_mem _ mem), ?_⟩
  intro key
  have enough := backed.enough key
  have left := leaves key
  rw [sum_cons] at enough
  split_ifs at enough left <;> omega

theorem tail : Backed stock marks := by
  have nonneg := (backed.positive mark List.mem_cons_self).le
  exact backed.spend nonneg fun key => by split_ifs <;> omega

theorem head_le : mark.2 ≤ stock mark.1 := by
  have enough := backed.enough mark.1
  have others := sum_nonneg backed.tail.positive mark.1
  rw [sum_cons, if_pos rfl] at enough
  omega

/-- An earmark becomes smaller. -/
theorem shrink (positive : 0 < amount) (within : amount ≤ mark.2) :
    Backed stock ((mark.1, amount) :: marks) := by
  constructor
  · intro other mem
    rcases List.mem_cons.mp mem with rfl | old
    · exact positive
    · exact backed.positive other (List.mem_cons_of_mem _ old)
  · intro key
    have enough := backed.enough key
    rw [sum_cons] at enough ⊢
    split_ifs at enough ⊢ <;> omega

end

/-- Something is taken from the stock of a key that nothing is earmarked of, or that holds
more than what is earmarked. -/
theorem withdraw (backed : Backed stock marks) (stays : ∀ key, 0 ≤ after key)
    (leaves : ∀ other, stock other - (if key = other then amount else 0) ≤ after other)
    (free : sum key marks = 0 ∨ sum key marks + amount ≤ stock key) : Backed after marks := by
  refine ⟨backed.positive, fun other => ?_⟩
  have enough := backed.enough other
  have left := leaves other
  by_cases same : key = other
  · subst same
    rcases free with nothing | spare
    · rw [nothing]
      exact stays key
    · omega
  · rw [if_neg same] at left
    omega

/-- Earmarks of different keys are backed together. -/
theorem append (backed : Backed stock marks) (others : Backed stock more)
    (apart : ∀ key, sum key marks = 0 ∨ sum key more = 0) : Backed stock (marks ++ more) := by
  constructor
  · intro mark mem
    rcases List.mem_append.mp mem with first | second
    · exact backed.positive mark first
    · exact others.positive mark second
  · intro key
    have enough := backed.enough key
    have enoughMore := others.enough key
    rw [sum_append]
    rcases apart key with nothing | nothing <;> omega

theorem right (backed : Backed stock (marks ++ more)) : Backed stock more := by
  refine ⟨fun mark mem => backed.positive mark (List.mem_append_right _ mem), ?_⟩
  intro key
  have enough := backed.enough key
  have nonneg := sum_nonneg
    (fun mark mem => backed.positive mark (List.mem_append_left more mem)) key
  rw [sum_append] at enough
  omega

end Backed
end LightningX.Earmarks
