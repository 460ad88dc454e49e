/-!
# Walks

A walk follows a partial function from one element to the next until there is no next element or an
element comes back.  The elements that have a next one form a finite list, the support, and every
step of the walk uses up one of them; so a walk always ends.  A walk may start with elements that
it must not meet: they count as passed.
-/

namespace SchemaDesign

/-- A partial function with finitely many elements that have a next one. -/
structure Steps (α : Type) where
  next : α → Option α
  support : List α
  mem_support : ∀ {x y : α}, next x = some y → x ∈ support

/-- How a walk ends.  The path holds the elements passed, the last one first. -/
inductive Walk (α : Type) where
  /-- At an element without a next one. -/
  | ends (path : List α) (last : α)
  /-- At an element that was passed before. -/
  | repeats (path : List α) (again : α)

namespace Steps

variable {α : Type} [DecidableEq α]

theorem length_unpassed_lt {support path : List α} {x : α} (hx : x ∈ support) (hp : x ∉ path) :
    (support.filter (· ∉ x :: path)).length < (support.filter (· ∉ path)).length := by
  have hsub : (support.filter (· ∉ x :: path)).length ≤
      ((support.filter (· ∉ path)).filter (· ≠ x)).length := by
    rw [List.filter_filter]
    apply Nat.le_of_eq
    congr 1
    apply List.filter_congr
    intro y _
    simp [not_or]
  refine Nat.lt_of_le_of_lt hsub ?_
  apply List.length_filter_lt_length_iff_exists.mpr
  exact ⟨x, by simp [hx, hp], by simp⟩

/-- The walk from an element, with a path of elements passed before. -/
def walk (steps : Steps α) (path : List α) (current : α) : Walk α :=
  if _hp : current ∈ path then .repeats path current
  else
    match _hn : steps.next current with
    | none => .ends path current
    | some following => steps.walk (current :: path) following
termination_by (steps.support.filter (· ∉ path)).length
decreasing_by exact length_unpassed_lt (steps.mem_support _hn) _hp

end Steps

/-- Whether the walk ends without meeting an element again. -/
def Walk.isFinite {α : Type} : Walk α → Bool
  | .ends _ _ => true
  | .repeats _ _ => false

end SchemaDesign
