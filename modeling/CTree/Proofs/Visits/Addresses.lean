import CTree.Proofs.Visits.Parts
import Mathlib.Data.List.Basic

/-!
# Addresses

With the parts of a node numbered, a list of numbers says how to go down from a node. Each node
in the tree has one address, so the addresses tell apart nodes that are equal. In the order of
lists a beginning comes before the whole, and what is inside of an earlier part before what is
inside of a later one.

A visit goes to the addresses of the expressions, statements and declarations, each once and in
this order.
-/

namespace CTree

namespace Node

/-- The node at an address. -/
def at? (n : Node) : List Nat → Option Node
  | [] => some n
  | i :: a =>
    match n.parts[i]? with
    | some m => m.at? a
    | none => none

@[simp] theorem at?_nil (n : Node) : n.at? [] = some n := rfl

theorem at?_cons {n m : Node} {i : Nat} (h : n.parts[i]? = some m) (a : List Nat) :
    n.at? (i :: a) = m.at? a := by
  rw [at?, h]

/-- A node that a visit notes: the program, an expression, a statement or a declaration. -/
def isNoted (n : Node) : Bool :=
  n.family?.isSome

/-- How many of the nodes above an address a visit notes. -/
def around (n : Node) (a : List Nat) : Nat :=
  (List.range a.length).countP fun k => (n.at? (a.take k)).any isNoted

@[simp] theorem around_nil (n : Node) : n.around [] = 0 := rfl

theorem around_cons {n m : Node} {i : Nat} (h : n.parts[i]? = some m) (a : List Nat) :
    n.around (i :: a) = (if n.isNoted then 1 else 0) + m.around a := by
  simp only [around, List.length_cons, List.range_succ_eq_map, List.countP_cons, List.take_zero,
    at?_nil, List.countP_map, Option.any_some, Function.comp_def, List.take_succ_cons, at?_cons h]
  exact Nat.add_comm _ _

/-- The addresses of the nodes that a visit notes, from a node downwards. -/
def noted (n : Node) : List (List Nat) :=
  (if n.isNoted then [[]] else []) ++
    n.parts.zipIdx.attach.flatMap fun ⟨(m, i), _⟩ => m.noted.map (i :: ·)
termination_by n
decreasing_by exact sizeOf_lt_of_mem_parts (List.fst_mem_of_mem_zipIdx ‹_›)

theorem noted_eq (n : Node) :
    n.noted = (if n.isNoted then [[]] else []) ++
      n.parts.zipIdx.flatMap fun x => x.1.noted.map (x.2 :: ·) := by
  conv_rhs => rw [← List.attach_map_subtype_val n.parts.zipIdx, List.flatMap_map]
  rw [noted]

/-- The addresses below a part begin with its number. -/
theorem mem_noted_cons {n : Node} {i : Nat} {a : List Nat} :
    i :: a ∈ n.noted ↔ ∃ m, n.parts[i]? = some m ∧ a ∈ m.noted := by
  rw [noted_eq]
  have hhead : i :: a ∉ (if n.isNoted then [[]] else []) := by
    split <;> simp
  simp only [List.mem_append, hhead, false_or, List.mem_flatMap, List.mem_map, List.cons.injEq,
    Prod.exists, List.mem_zipIdx_iff_getElem?]
  constructor
  · rintro ⟨m, j, hm, b, hb, rfl, rfl⟩
    exact ⟨m, hm, hb⟩
  · rintro ⟨m, hm, ha⟩
    exact ⟨m, i, hm, a, ha, rfl, rfl⟩

theorem nil_mem_noted {n : Node} : [] ∈ n.noted ↔ n.isNoted = true := by
  rw [noted_eq]
  simp

/-- The addresses are those of the nodes that a visit notes. -/
theorem mem_noted {n : Node} {a : List Nat} :
    a ∈ n.noted ↔ ∃ m, n.at? a = some m ∧ m.isNoted = true := by
  induction a generalizing n with
  | nil => simp [nil_mem_noted]
  | cons i a ih =>
    rw [mem_noted_cons]
    constructor
    · rintro ⟨m, hm, ha⟩
      rw [at?_cons hm]
      exact ih.1 ha
    · rintro ⟨m, hm, hnoted⟩
      rw [at?] at hm
      split at hm
      · rename_i p hp
        exact ⟨p, hp, ih.2 ⟨m, hm, hnoted⟩⟩
      · cases hm

theorem pairwise_lt_zipIdx {α : Type} (as : List α) :
    as.zipIdx.Pairwise fun x y => x.2 < y.2 := by
  have hnumbers : (as.zipIdx.map Prod.snd).Pairwise (· < ·) := by
    rw [List.zipIdx_map_snd]
    exact List.pairwise_lt_range'
  exact List.pairwise_map.1 hnumbers

/-- The addresses stand in the order of lists, so none stands there twice. -/
theorem pairwise_noted (n : Node) : n.noted.Pairwise (· < ·) := by
  induction n using induction_parts with
  | step n ih =>
    rw [noted_eq, List.pairwise_append]
    refine ⟨?_, List.pairwise_flatMap.2 ⟨fun x hx => ?_, ?_⟩, ?_⟩
    · split <;> simp
    · have hpart := ih x.1 (List.fst_mem_of_mem_zipIdx hx)
      rw [List.pairwise_map]
      exact hpart.imp fun h => List.Lex.cons h
    · refine (pairwise_lt_zipIdx n.parts).imp fun {x y} hlt a ha b hb => ?_
      obtain ⟨a, -, rfl⟩ := List.mem_map.1 ha
      obtain ⟨b, -, rfl⟩ := List.mem_map.1 hb
      exact List.Lex.rel hlt
    · -- the node itself has the empty address, which comes first
      intro a ha b hb
      obtain ⟨x, -, hx⟩ := List.mem_flatMap.1 hb
      obtain ⟨b, -, rfl⟩ := List.mem_map.1 hx
      split at ha
      · rw [List.mem_singleton.1 ha]
        exact List.Lex.nil
      · cases ha

/-- A visit goes to the addresses in their order, and counts the nodes around each. -/
theorem walk_eq_noted (n : Node) (depth : Nat) :
    (n.walk isNoted depth).map some =
      n.noted.map fun a => (n.at? a).map (depth + n.around a, ·) := by
  induction n using induction_parts generalizing depth with
  | step n ih =>
    have hparts : ∀ inner, (inner = depth + if n.isNoted then 1 else 0) →
        (n.parts.flatMap (walk isNoted inner)).map some =
          (n.parts.zipIdx.flatMap fun x => x.1.noted.map (x.2 :: ·)).map
            fun a => (n.at? a).map (depth + n.around a, ·) := by
      rintro inner rfl
      conv_lhs => rw [← List.zipIdx_map_fst 0 n.parts, List.flatMap_map]
      rw [List.map_flatMap, List.map_flatMap]
      refine List.flatMap_congr fun x hx => ?_
      have hx' : n.parts[x.2]? = some x.1 := List.mem_zipIdx_iff_getElem?.1 hx
      rw [ih x.1 (List.fst_mem_of_mem_zipIdx hx), List.map_map]
      simp only [Function.comp_def, at?_cons hx', around_cons hx', Nat.add_assoc]
    rw [walk_eq_parts, noted_eq, List.map_append]
    split
    · rw [List.map_cons, hparts (depth + 1) (by simp [*])]
      simp
    · rw [hparts depth (by simp [*])]
      simp

end Node

end CTree
