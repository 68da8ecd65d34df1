import Mathlib.Algebra.BigOperators.Group.List.Basic
import Mathlib.Algebra.Order.Ring.Int
import Mathlib.Data.List.Pairwise

/-!
# Threads in a list

A system of threads that take steps in any order is a list of the states of its
threads.  A step replaces one of them; a thread that is new comes last.
-/

namespace LightningX.Threads

variable {α : Type} {threads : List α} {index : Nat} {old new : α}

section

variable (found : threads[index]? = some old)
include found

/-- All threads but one stay as they are. -/
theorem eq_or_mem_set (new : α) (mem : thread ∈ threads) :
    thread = old ∨ thread ∈ threads.set index new := by
  obtain ⟨place, isThread⟩ := List.mem_iff_getElem?.mp mem
  by_cases same : place = index
  · subst same
    exact .inl (Option.some.inj (isThread.symm.trans found))
  · right
    refine List.mem_iff_getElem?.mpr ⟨place, ?_⟩
    rw [List.getElem?_set_ne (Ne.symm same), isThread]

theorem mem_set_self (new : α) : new ∈ threads.set index new :=
  List.mem_set (List.getElem?_eq_some_iff.mp found).1 new

/-- What some thread does is done by the step, or is still done by a thread. -/
theorem exists_mem_set {does : α → Prop} (keeps : does old → done ∨ does new)
    (before : ∃ thread ∈ threads, does thread) :
    done ∨ ∃ thread ∈ threads.set index new, does thread := by
  obtain ⟨thread, mem, holds⟩ := before
  obtain rfl | later := eq_or_mem_set found new mem
  · exact (keeps holds).imp_right fun holds => ⟨new, mem_set_self found new, holds⟩
  · exact .inr ⟨thread, later, holds⟩

/-- A sum over all threads changes by what the step changes. -/
theorem sum_map_set (new : α) (measure : α → Int) :
    ((threads.set index new).map measure).sum =
      (threads.map measure).sum + (measure new - measure old) := by
  obtain ⟨fits, here⟩ := List.getElem?_eq_some_iff.mp found
  rw [List.map_set, List.sum_set', dif_pos (by simpa using fits)]
  simp only [List.getElem_map, here]
  omega

end

section

/-- A step that asks no more of the other threads. -/
theorem pairwise_set [Std.Symm compatible] (found : threads[index]? = some old)
    (weaker : ∀ other, compatible old other → compatible new other)
    (pairwise : threads.Pairwise compatible) : (threads.set index new).Pairwise compatible := by
  induction threads generalizing index with
  | nil => simp at found
  | cons thread rest ih =>
    obtain ⟨here, later⟩ := List.pairwise_cons.mp pairwise
    cases index with
    | zero =>
      obtain rfl : thread = old := by simpa using found
      exact List.pairwise_cons.mpr ⟨fun other mem => weaker other (here other mem), later⟩
    | succ place =>
      refine List.pairwise_cons.mpr ⟨fun other mem => ?_, ih found later⟩
      obtain earlier | rfl := List.mem_or_eq_of_mem_set mem
      · exact here other earlier
      · exact symm (weaker thread (symm (here old (List.mem_of_getElem? found))))

/-- A new thread. -/
theorem pairwise_append
    (pairwise : threads.Pairwise compatible) (fits : ∀ thread ∈ threads, compatible thread new) :
    (threads ++ [new]).Pairwise compatible := by
  refine List.pairwise_append.mpr ⟨pairwise, List.pairwise_singleton _ _, ?_⟩
  intro thread mem other isNew
  obtain rfl := List.mem_singleton.mp isNew
  exact fits thread mem

end

end LightningX.Threads
