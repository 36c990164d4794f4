/-!
# Known type names

The names that count as types when a source is read. The set only grows, and the empty name never
enters it.
-/

namespace CTree

/-- A set of type names. -/
structure KnownTypes where
  names : List String := []
  deriving DecidableEq, Repr

namespace KnownTypes

/-- Whether a name is known. -/
def contains (known : KnownTypes) (name : String) : Bool :=
  known.names.contains name

/-- Adds a name, unless it is empty or known already. -/
def insert (known : KnownTypes) (name : String) : KnownTypes :=
  if name.isEmpty || known.contains name then known else ⟨name :: known.names⟩

/-- Only a name that is not empty is added. -/
theorem mem_names_insert {known : KnownTypes} {name other : String} :
    other ∈ (known.insert name).names ↔ other ∈ known.names ∨ other = name ∧ other ≠ "" := by
  have hcontains : known.contains name = true ↔ name ∈ known.names := List.contains_iff_mem
  unfold insert
  by_cases hold : (name.isEmpty || known.contains name) = true
  · rw [if_pos hold]
    rw [Bool.or_eq_true, String.isEmpty_iff, hcontains] at hold
    refine (or_iff_left_of_imp ?_).symm
    rintro ⟨rfl, hne⟩
    exact hold.resolve_left hne
  · rw [if_neg hold, List.mem_cons, or_comm]
    rw [Bool.or_eq_true, String.isEmpty_iff, not_or] at hold
    refine or_congr_right (and_iff_left_of_imp ?_).symm
    rintro rfl
    exact hold.1

/-- The names in the order of their code points. -/
def sorted (known : KnownTypes) : List String :=
  known.names.mergeSort (· ≤ ·)

end KnownTypes

end CTree
