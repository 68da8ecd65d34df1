import Mathlib.Data.List.Basic

/-!
# Linked segments in a store of cells

A store of cells is seen only through its successor function
`next : Nat → Option Nat`.  A segment is a list of cells in which every cell
points to the one after it and the last cell points to a given exit.  Singly
linked lists, both directions of a doubly linked list and every tier of a
skip list are segments, so splicing, unlinking and walking are proved once
here.
-/

namespace LightningX.Path

variable {cells back front : List Nat} {fuel : Nat}

/-- Every cell points to the cell after it, and the last cell to `exit`. -/
def Segment (next : Nat → Option Nat) : List Nat → Option Nat → Prop
  | [], _ => True
  | cell :: rest, exit => next cell = rest.head?.or exit ∧ Segment next rest exit

variable {next next' : Nat → Option Nat} {exit : Option Nat}

@[simp] theorem segment_nil : Segment next [] exit := trivial

@[simp] theorem segment_cons (cell : Nat) (rest : List Nat) :
    Segment next (cell :: rest) exit ↔ next cell = rest.head?.or exit ∧ Segment next rest exit :=
  Iff.rfl

/-- A segment only depends on the successors of its own cells. -/
theorem Segment.congr (segment : Segment next cells exit)
    (agree : ∀ cell ∈ cells, next' cell = next cell) : Segment next' cells exit := by
  induction cells with
  | nil => trivial
  | cons cell rest ih =>
    refine ⟨(agree cell (by simp)).trans segment.1, ?_⟩
    exact ih segment.2 fun other mem => agree other (by simp [mem])

/-- A concatenation is a segment exactly when its two parts are, the first
one leaving into the second. -/
theorem segment_append (front back : List Nat) :
    Segment next (front ++ back) exit ↔
      Segment next front (back.head?.or exit) ∧ Segment next back exit := by
  induction front with
  | nil => simp
  | cons cell rest ih =>
    cases rest with
    | nil => simp
    | cons following rest =>
      simp only [List.cons_append, segment_cons] at *
      tauto

/-- Splicing a new cell in after `pivot`. -/
theorem Segment.splice (segment : Segment next (front ++ pivot :: back) exit)
    (agree : ∀ cell ∈ front ++ back, next' cell = next cell) (atPivot : next' pivot = some fresh)
    (atFresh : next' fresh = next pivot) :
    Segment next' (front ++ pivot :: fresh :: back) exit := by
  rw [segment_append] at segment ⊢
  obtain ⟨frontSegment, pivotNext, backSegment⟩ := segment
  refine ⟨?_, by simpa using atPivot, ?_, ?_⟩
  · exact frontSegment.congr fun cell mem => agree cell (by simp [mem])
  · rw [atFresh, pivotNext]
  · exact backSegment.congr fun cell mem => agree cell (by simp [mem])

theorem Segment.unlink (segment : Segment next (front ++ pivot :: target :: back) exit)
    (agree : ∀ cell ∈ front ++ back, next' cell = next cell) (atPivot : next' pivot = next target) :
    Segment next' (front ++ pivot :: back) exit := by
  rw [segment_append] at segment ⊢
  obtain ⟨frontSegment, -, targetNext, backSegment⟩ := segment
  refine ⟨?_, ?_, ?_⟩
  · exact frontSegment.congr fun cell mem => agree cell (by simp [mem])
  · rw [atPivot, targetNext]
  · exact backSegment.congr fun cell mem => agree cell (by simp [mem])

/-- The successor of a cell inside a segment. -/
theorem Segment.next_eq (segment : Segment next (front ++ cell :: back) exit) :
    next cell = back.head?.or exit :=
  ((segment_append front (cell :: back)).mp segment).2.1

/-- Follow successors from `cell` while the next cell exists and is not a
stopping cell; `fuel` bounds the number of moves. -/
def walk (next : Nat → Option Nat) (stop : Nat → Bool) : Nat → Nat → Nat
  | 0, cell => cell
  | fuel + 1, cell =>
    match next cell with
    | none => cell
    | some following => if stop following then cell else walk next stop fuel following

/-- With enough fuel a walk ends at the last cell before the first stopping
cell. -/
theorem walk_eq (segment : Segment next (cell :: passed ++ rest) none)
    (passes : ∀ other ∈ passed, stop other = false)
    (stops : ∀ other ∈ rest.head?, stop other = true) (enough : passed.length ≤ fuel) :
    walk next stop fuel cell = (cell :: passed).getLast (by simp) := by
  induction passed generalizing cell fuel with
  | nil =>
    cases fuel with
    | zero => rfl
    | succ fuel =>
      cases rest with
      | nil =>
        have atEnd : next cell = none := by simpa using segment.1
        simp [walk, atEnd]
      | cons following rest =>
        have ahead : next cell = some following := by simpa using segment.1
        simp [walk, ahead, stops following (by simp)]
  | cons following passed ih =>
    cases fuel with
    | zero => simp at enough
    | succ fuel =>
      have ahead : next cell = some following := by simpa using segment.1
      have goes : stop following = false := passes following (by simp)
      have tail : walk next stop fuel following = _ :=
        ih segment.2
          (fun other mem => passes other (by simp [mem])) (by simpa using enough)
      simp only [walk, ahead, goes]
      simpa using tail

/-- First cell from `start` on that satisfies `found`. -/
def seek (next : Nat → Option Nat) (found : Nat → Bool) :
    Nat → Option Nat → Option Nat
  | 0, _ => none
  | _ + 1, none => none
  | fuel + 1, some cell => if found cell then some cell else seek next found fuel (next cell)

/-- With enough fuel the search agrees with `List.find?` on the segment. -/
theorem seek_eq (segment : Segment next cells none) (enough : cells.length < fuel) :
    seek next found fuel cells.head? = cells.find? found := by
  induction cells generalizing fuel with
  | nil => cases fuel <;> simp [seek]
  | cons cell rest ih =>
    cases fuel with
    | zero => simp at enough
    | succ fuel =>
      have ahead : next cell = rest.head? := by simpa using segment.1
      have tail : seek next found fuel rest.head? = _ := ih segment.2 (by simpa using enough)
      by_cases hit : found cell = true
      · simp [seek, hit]
      · simp [seek, hit, ahead, tail]

/-- The cells from `start` on. -/
def collect (next : Nat → Option Nat) : Nat → Option Nat → List Nat
  | 0, _ => []
  | _ + 1, none => []
  | fuel + 1, some cell => cell :: collect next fuel (next cell)

theorem collect_eq (segment : Segment next cells none) (enough : cells.length ≤ fuel) :
    collect next fuel cells.head? = cells := by
  induction cells generalizing fuel with
  | nil => cases fuel <;> simp [collect]
  | cons cell rest ih =>
    cases fuel with
    | zero => simp at enough
    | succ fuel =>
      have ahead : next cell = rest.head? := by simpa using segment.1
      have tail : collect next fuel rest.head? = rest := ih segment.2 (by simpa using enough)
      simp [collect, ahead, tail]

end LightningX.Path
