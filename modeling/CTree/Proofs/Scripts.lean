import CTree.Cursor.Script

/-!
# What scripts keep

A script is any sequence of steps of a cursor, on any list of tokens: one without an `eof`, or with some in
the middle. Wherever it leads, the cursor stands at the first `eof` or before it, and no more constructs are
open than the limit allows. A mark remembers a place where the cursor stood, so it is such a place as well,
and going back to it is safe also where that is a move forward. The known names are the ones that were made
known, but for the empty one. `after_invariant` says so of all scripts.
-/

namespace CTree

/-! ### Streams -/

namespace TokenStream

variable {ts : TokenStream} {i : Nat}

/-- The index of the first `eof`. -/
def firstEnd (ts : TokenStream) : Nat :=
  ts.toList.findIdx (·.kind == .eof)

theorem firstEnd_lt_length (ts : TokenStream) : ts.firstEnd < ts.toList.length := by
  have hlast : ts.last ∈ ts.toList := List.mem_of_getLast? ts.getLast?_toList
  exact List.findIdx_lt_length_of_exists ⟨ts.last, hlast, beq_iff_eq.2 ts.last_kind⟩

/-- Up to the first `eof`, a token is an `eof` only if it is this one. -/
theorem kind_get_eq_eof_iff (h : i ≤ ts.firstEnd) : (ts.get i).kind = .eof ↔ i = ts.firstEnd := by
  have hlt : i < ts.toList.length := Nat.lt_of_le_of_lt h ts.firstEnd_lt_length
  rw [get_eq_getD, List.getD_eq_getElem?_getD, List.getElem?_eq_getElem hlt, Option.getD_some]
  rcases Nat.eq_or_lt_of_le h with rfl | hbefore
  · exact iff_of_true (beq_iff_eq.1 (List.findIdx_getElem (w := hlt))) rfl
  · have hother := List.not_of_lt_findIdx hbefore
    exact iff_of_false (by simpa using hother) (Nat.ne_of_lt hbefore)

end TokenStream

/-! ### Cursors -/

namespace Cursor

variable {ts : TokenStream} {c : Cursor} {limit : Nat}

/-- Moving on leads to the next token, but not past the first `eof`. -/
theorem advance_eq (h : c.position ≤ ts.firstEnd) :
    c.advance ts = c.reset (min (c.position + 1) ts.firstEnd) := by
  have hend : c.atEnd ts = true ↔ c.position = ts.firstEnd := by
    rw [atEnd, beq_iff_eq]
    exact TokenStream.kind_get_eq_eof_iff h
  unfold advance
  rcases Nat.eq_or_lt_of_le h with heq | hlt
  · rw [if_pos (hend.2 heq), Nat.min_eq_right (by omega), ← heq]
    rfl
  · rw [if_neg (fun hat => Nat.ne_of_lt hlt (hend.1 hat)), Nat.min_eq_left hlt]
    rfl

theorem enter_eq (h : c.depth ≤ limit) :
    c.enter ts limit = if c.depth = limit then .error ⟨.tooDeep limit, (c.current ts).offset⟩
      else .ok { c with depth := c.depth + 1 } := by
  have hfull : limit ≤ c.depth ↔ c.depth = limit := ⟨Nat.le_antisymm h, Nat.le_of_eq ∘ Eq.symm⟩
  simp only [enter, hfull]

end Cursor

/-! ### Runs -/

namespace CursorRun

variable {ts : TokenStream} {limit : Nat} {r : CursorRun} {s : CursorStep} {name : String}

/-- The run with the cursor at the given index. -/
def atPosition (r : CursorRun) (position : Nat) : CursorRun :=
  { r with cursor := r.cursor.reset position }

/-- The run after a script. -/
def after (ts : TokenStream) (limit : Nat) (r : CursorRun) (script : List CursorStep) : CursorRun :=
  script.foldl (fun r s => (r.step ts limit s).2) r

/-- What is answered to a script tells of the run after it. -/
theorem steps_concat (ts : TokenStream) (limit : Nat) (r : CursorRun) (script : List CursorStep)
    (s : CursorStep) :
    steps ts limit r (script ++ [s]) = steps ts limit r script ++
      [(((after ts limit r script).step ts limit s).1,
        ((after ts limit r script).step ts limit s).2.cursor)] := by
  induction script generalizing r with
  | nil => rfl
  | cons first script ih => exact congrArg (List.cons _) (ih _)

theorem step_reset {mark : Nat} (h : r.marks.lookup name = some mark) :
    r.step ts limit (.reset name) = (.nothing, r.atPosition mark) := by
  simp only [step, h, atPosition]

theorem step_reset_of_none (h : r.marks.lookup name = none) :
    r.step ts limit (.reset name) = (.nothing, r) := by
  simp only [step, h]

theorem step_enter (h : r.cursor.depth ≤ limit) :
    r.step ts limit .enter =
      if r.cursor.depth = limit then (.refused ⟨.tooDeep limit, (r.cursor.current ts).offset⟩, r)
      else (.entered, { r with cursor := { r.cursor with depth := r.cursor.depth + 1 } }) := by
  simp only [step, Cursor.enter_eq h]
  by_cases hfull : r.cursor.depth = limit
  · rw [if_pos hfull, if_pos hfull]
  · rw [if_neg hfull, if_neg hfull]

/-- The cursor and all marks stand at the first `eof` or before it, and no more is open than allowed. -/
structure Within (ts : TokenStream) (limit : Nat) (r : CursorRun) : Prop where
  position : r.cursor.position ≤ ts.firstEnd
  marks : ∀ mark ∈ r.marks, mark.2 ≤ ts.firstEnd
  depth : r.cursor.depth ≤ limit

theorem Within.start (ts : TokenStream) (limit : Nat) : Within ts limit {} :=
  ⟨Nat.zero_le _, fun _ hmark => absurd hmark List.not_mem_nil, Nat.zero_le _⟩

theorem Within.mark_le {mark : Nat} (h : Within ts limit r) (hmark : r.marks.lookup name = some mark) :
    mark ≤ ts.firstEnd := by
  obtain ⟨before, others, heq, -⟩ := List.lookup_eq_some_iff.1 hmark
  have hmem : (name, mark) ∈ r.marks := by
    rw [heq]
    exact List.mem_append_right _ List.mem_cons_self
  exact h.marks _ hmem

/-- All that a step can do: it changes the place and the number of open constructs within their bounds,
makes a mark, or makes a name known. -/
theorem step_cases (h : Within ts limit r) (s : CursorStep) :
    (∃ i ≤ ts.firstEnd, ∃ depth ≤ limit,
      (∀ name, s ≠ .mark name) ∧ (∀ name, s ≠ .register name) ∧
      (r.step ts limit s).2 = { r with cursor := { r.cursor with position := i, depth } }) ∨
    (∃ name, s = .mark name ∧
      (r.step ts limit s).2 = { r with marks := (name, r.cursor.position) :: r.marks }) ∨
    ∃ name, s = .register name ∧
      (r.step ts limit s).2 = { r with cursor := r.cursor.register name } := by
  cases s with
  | mark name => exact .inr (.inl ⟨name, rfl, rfl⟩)
  | register name => exact .inr (.inr ⟨name, rfl, rfl⟩)
  | peek | previous | isKnown | types | isKind | size =>
    exact .inl ⟨_, h.position, _, h.depth, nofun, nofun, rfl⟩
  | advance =>
    have hnext := congrArg (fun cursor => { r with cursor }) (Cursor.advance_eq h.position)
    exact .inl ⟨_, Nat.min_le_right _ _, _, h.depth, nofun, nofun, hnext⟩
  | rewind i =>
    have hback := Nat.le_trans (Nat.min_le_right i _) h.position
    exact .inl ⟨_, hback, _, h.depth, nofun, nofun, rfl⟩
  | reset name =>
    cases hmark : r.marks.lookup name with
    | none =>
      rw [step_reset_of_none hmark]
      exact .inl ⟨_, h.position, _, h.depth, nofun, nofun, rfl⟩
    | some mark =>
      rw [step_reset hmark]
      exact .inl ⟨_, h.mark_le hmark, _, h.depth, nofun, nofun, rfl⟩
  | enter =>
    rw [step_enter h.depth]
    by_cases hfull : r.cursor.depth = limit
    · rw [if_pos hfull]
      exact .inl ⟨_, h.position, _, h.depth, nofun, nofun, rfl⟩
    · rw [if_neg hfull]
      exact .inl ⟨_, h.position, _, Nat.lt_of_le_of_ne h.depth hfull, nofun, nofun, rfl⟩
  | exit =>
    have hless := Nat.le_trans (Nat.sub_le _ 1) h.depth
    exact .inl ⟨_, h.position, _, hless, nofun, nofun, rfl⟩

/-! ### One step -/

theorem Within.step (h : Within ts limit r) (s : CursorStep) : Within ts limit (r.step ts limit s).2 := by
  rcases step_cases h s with ⟨i, hi, depth, hdepth, -, -, heq⟩ | ⟨name, -, heq⟩ | ⟨name, -, heq⟩
  · rw [heq]
    exact ⟨hi, h.marks, hdepth⟩
  · rw [heq]
    exact ⟨h.position, List.forall_mem_cons.2 ⟨h.position, h.marks⟩, h.depth⟩
  · rw [heq]
    exact ⟨h.position, h.marks, h.depth⟩

/-- A mark stays until one is made under the same name. -/
theorem lookup_step (h : Within ts limit r) (hs : s ≠ .mark name) :
    (r.step ts limit s).2.marks.lookup name = r.marks.lookup name := by
  rcases step_cases h s with ⟨i, -, depth, -, -, -, heq⟩ | ⟨other, rfl, heq⟩ | ⟨other, -, heq⟩
  · rw [heq]
  · have hother : (name == other) = false := beq_false_of_ne fun hname => hs (congrArg _ hname.symm)
    rw [heq, List.lookup_cons, hother]
  · rw [heq]

/-- A name is known if it was before, or if it is made known and not empty. -/
theorem mem_names_step (h : Within ts limit r) :
    name ∈ (r.step ts limit s).2.cursor.known.names ↔
      name ∈ r.cursor.known.names ∨ s = .register name ∧ name ≠ "" := by
  rcases step_cases h s with ⟨i, -, depth, -, -, hs, heq⟩ | ⟨other, rfl, heq⟩ | ⟨added, rfl, heq⟩
  · rw [heq, or_iff_left fun hadded => hs name hadded.1]
  · rw [heq, or_iff_left fun hadded => nomatch hadded.1]
  · rw [heq, CursorStep.register.injEq, eq_comm]
    exact KnownTypes.mem_names_insert

/-! ### Whole scripts -/

theorem Within.after (h : Within ts limit r) (script : List CursorStep) :
    Within ts limit (after ts limit r script) := by
  induction script generalizing r with
  | nil => exact h
  | cons s script ih => exact ih (h.step s)

theorem lookup_after {script : List CursorStep} (h : Within ts limit r) (hs : .mark name ∉ script) :
    (after ts limit r script).marks.lookup name = r.marks.lookup name := by
  induction script generalizing r with
  | nil => rfl
  | cons s script ih =>
    rw [List.mem_cons, not_or] at hs
    exact (ih (h.step s) hs.2).trans (lookup_step h (Ne.symm hs.1))

theorem mem_names_after {script : List CursorStep} (h : Within ts limit r) :
    name ∈ (after ts limit r script).cursor.known.names ↔
      name ∈ r.cursor.known.names ∨ .register name ∈ script ∧ name ≠ "" := by
  induction script generalizing r with
  | nil => exact (or_iff_left fun hadded => List.not_mem_nil hadded.1).symm
  | cons s script ih =>
    have hrest := ih (h.step s)
    rw [mem_names_step h, or_assoc, ← or_and_right, eq_comm, ← List.mem_cons] at hrest
    exact hrest

/-- Going back to a mark restores the place at which it was made, whatever was done since, and changes
nothing else. -/
theorem step_reset_after {rest : List CursorStep} (h : Within ts limit r) (hs : .mark name ∉ rest) :
    let q := after ts limit r (.mark name :: rest)
    q.step ts limit (.reset name) = (.nothing, q.atPosition r.cursor.position) := by
  intro q
  have hmark : q.marks.lookup name = some r.cursor.position :=
    (lookup_after (h.step (.mark name)) hs).trans List.lookup_cons_self
  exact step_reset hmark

end CursorRun

end CTree
