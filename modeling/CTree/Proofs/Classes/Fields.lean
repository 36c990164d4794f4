import CTree.Proofs.Declarators.Values
import CTree.Proofs.Declarators.Variables

/-!
# Fields of integers

`int n;` in the body of a class. The heads of a constructor, a destructor, an operator and a method are tried
before that of a field; they fail at different places, and none of them leaves anything behind.
-/

namespace CTree

open Parse Lexeme

variable {source : Source} {s : ParseState} {g : Grammar} {name owner : String} {bases : List BaseClass}
  {access : Access} {ws : List Lexeme}

/-- A field as it is written. -/
def fieldLexemes (name : String) : List Lexeme :=
  [spelled .kwInt, Lexeme.name name, spelled .semicolon]

/-- The field of that name. -/
def FieldDecl.ofInt (name : String) (access : Access) : FieldDecl where
  type := "int"
  name
  access
  isMutable := false
  isStatic := false
  isConst := false
  init? := none
  dimensions := []
  bitWidth? := none

section Heads

variable (hsees : source.Sees s.cursor.position (fieldLexemes name ++ ws))

include hsees

theorem Consumes.noSpecifiers : Consumes source s 0 specifiers {} :=
  run_specifiers_of_sees hsees rfl (by decide)

theorem Consumes.intType : Consumes source s 1 Parse.typeName "int" := by
  have h := Consumes.typeName (List.forall_mem_nil _)
    (@IsCore.builtin s.cursor.known .kwInt [] (by decide)) (List.forall_mem_nil _) rfl hsees
  exact h

theorem Refuses.constructorHead : Refuses source s (g.constructorHead owner) := by
  refine .look (Consumes.noSpecifiers hsees) (Refuses.bind ?_)
  exact (require (by rw [show (source.view s).kind 0 = .kwInt from hsees.kind]; decide)).bind

theorem Refuses.destructorHead : Refuses source s (Parse.destructorHead owner) :=
  .look (Consumes.noSpecifiers hsees)
    (skipOver (by rw [show (source.view s).kind 0 = .kwInt from hsees.kind]; decide)).bind

theorem Refuses.operatorHead : Refuses source s g.operatorHead := by
  have hk : (source.view s).kind 0 = .kwInt := hsees.kind
  have hnext : (source.view (s.after 1)).kind 0 = .identifier := hsees.next.kind
  refine .look (Consumes.noSpecifiers hsees) (.look (run_check _) ?_)
  rw [hk]
  exact .after (Consumes.intType hsees) (skipOver (by rw [hnext]; decide)).bind

theorem Refuses.methodHead : Refuses source s g.methodHead := by
  have hend : (source.view ((s.after 1).after 1)).kind 0 = .semicolon := hsees.next.next.kind
  refine .look (Consumes.noSpecifiers hsees) (.after (Consumes.intType hsees) ?_)
  refine .after (Consumes.name hsees.next) (Refuses.bind ?_)
  refine .look run_kind ?_
  rw [hend]
  exact unexpected _

theorem Consumes.fieldHead : Consumes source s 2 Parse.fieldHead (.field {} "int" name) := by
  have hnext : (source.view (s.after 1)).kind 0 = .identifier := hsees.next.kind
  have hend : (source.view ((s.after 1).after 1)).kind 0 = .semicolon := hsees.next.next.kind
  have hpointer : atFunctionPointer.run source (s.after 1) = (.ok false, s.after 1) := by
    unfold atFunctionPointer
    rw [run_bind_ok (run_check _), hnext, run_bind_ok (run_checkAhead _ _)]
    rfl
  have hname : Consumes source (s.after 1) 1 (declaredName (Parse.name "in function pointer member")
      (Parse.name "in member declaration")) (name, "") := by
    refine .look hpointer ?_
    rw [if_neg Bool.false_ne_true]
    exact (Consumes.name hsees.next).andLast (.pure _)
  have hdemand : (demand TokenKind.followsField "not a field").run source ((s.after 1).after 1) =
      (.ok (), (s.after 1).after 1) := by
    unfold demand
    rw [run_bind_ok run_kind, hend]
    rfl
  refine .look (Consumes.noSpecifiers hsees) ((Consumes.intType hsees).bind (m := 1) ?_)
  exact hname.andLast (.look hdemand (.pure _))

end Heads

/-- A head that fails is passed over. -/
theorem Consumes.firstOf_cons {α : Type} {p : Parse α} {ps : List (Parse α)} {n : Nat} {x : Option α}
    (h : Refuses source s p) (hrest : Consumes source s n (firstOf ps) x) :
    Consumes source s n (firstOf (p :: ps)) x :=
  .look h.speculate hrest

/-- Of the heads that are tried, that of a field is read. -/
theorem Consumes.memberHead (hsees : source.Sees s.cursor.position (fieldLexemes name ++ ws)) :
    Consumes source s 2 (g.memberHead owner) (some (.field {} "int" name)) := by
  have hfield : Consumes source s 2 (leniently Parse.fieldHead) (.field {} "int" name) :=
    .withLeniency (Consumes.fieldHead hsees)
  refine .firstOf_cons (.withLeniency (Refuses.constructorHead hsees)) ?_
  refine .firstOf_cons (.withLeniency (Refuses.destructorHead hsees)) ?_
  refine .firstOf_cons (.withLeniency (Refuses.operatorHead hsees)) ?_
  refine .firstOf_cons (.withLeniency (Refuses.methodHead hsees)) ?_
  exact hfield.speculate.andLast (.pure _)

/-- Nothing is read after the name of a field but the `;`. -/
theorem Consumes.fields (hk : (source.view s).kind 0 = .semicolon) :
    Consumes source s 1 (g.fields {} access "int" name) [.field (.ofInt name access)] := by
  have hne {k : TokenKind} (h : TokenKind.semicolon ≠ k) : (source.view s).kind 0 ≠ k := by
    rwa [hk]
  have hdimensions : g.dimensions.run source s = (.ok [], s) := by
    unfold Grammar.dimensions
    rw [collect, run_bind_ok run_view, collectFor, bind_assoc,
      run_bind_ok (run_accept_of_ne (hne (by decide)))]
    rfl
  have hwidth : (optionalAfter .colon (g.parse .conditional)).run source s = (.ok none, s) := by
    unfold optionalAfter
    rw [run_bind_ok (run_accept_of_ne (hne (by decide)))]
    rfl
  have hinit : g.fieldInit.run source s = (.ok none, s) := by
    unfold Grammar.fieldInit
    rw [run_bind_ok (run_accept_of_ne (hne (by decide))), if_neg Bool.false_ne_true,
      run_bind_ok (run_check _), beq_false_of_ne (hne (by decide))]
    rfl
  have hfield : Consumes source s 0 (g.fieldOf {} access ("int", name)) (.ofInt name access) :=
    .look hdimensions (.look hwidth (.look hinit (.pure _)))
  have hchain (next : Parse (String × String)) :
      Consumes source s 0 (chain (g.fieldOf {} access) next ("int", name)) [.ofInt name access] := by
    refine .look run_view ?_
    rw [Parse.chainFor]
    exact .look hfield (.look (run_accept_of_ne (hne (by decide))) (.pure _))
  exact .look (hchain _) ((skipOver hk (by decide)).andLast (.pure _))

/-- The field, and its access is the one that it is read with. -/
theorem Consumes.intField (hsees : source.Sees s.cursor.position (fieldLexemes name ++ ws)) :
    Consumes source s 3 (g.member owner bases access) (access, [.field (.ofInt name access)]) := by
  have hk : (source.view s).kind 0 = .kwInt := hsees.kind
  have hlabel : Grammar.accessLabel.run source s = (.ok none, s) := by
    unfold Grammar.accessLabel
    rw [run_bind_ok (run_checkAhead _ _), show (source.view s).kind 1 = .identifier from hsees.next.kind]
    rfl
  have hdefinition : g.typeDefinition?.run source s = (.ok none, s) := by
    unfold Grammar.typeDefinition?
    rw [run_bind_ok (run_lookAhead _), View.atClass_eq_false (by rw [hk]; rfl), if_neg Bool.false_ne_true,
      run_bind_ok run_view, View.atEnum_eq_false (by rw [hk]; rfl)]
    rfl
  have hplain : Consumes source s 3 (g.plainMember owner bases access) [.field (.ofInt name access)] := by
    refine .look run_kind ?_
    rw [hk]
    refine (Consumes.memberHead hsees).bind (m := 1) ?_
    exact Consumes.fields hsees.next.next.kind
  exact .look hlabel (.look hdefinition (hplain.andLast (.pure _)))

end CTree
