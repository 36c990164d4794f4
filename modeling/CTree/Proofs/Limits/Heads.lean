import CTree.Proofs.Limits.Aborts
import CTree.Proofs.Resumption.Function

/-!
# Items that begin with the keyword of a type

In `int x` and `void f` the head of the declaration is one keyword. What comes of the item is what comes of the
rest of the declaration, whether that is read or fails.
-/

namespace CTree

open Parse Lexeme

variable {source : Source} {s t : ParseState} {g : Grammar} {n : Nat} {k : TokenKind} {text type : String}
  {w : Lexeme} {ws : List Lexeme}

/-- A keyword is read as the type in front of a name, and the name shows the form of the declaration. -/
theorem Consumes.builtinHead {form : DeclarationForm} (hk : k.isBuiltinType = true)
    (hsees : source.Sees s.cursor.position (spelled k :: Lexeme.name text :: ws))
    (hform : (source.view (s.after 1)).declarationForm? source.settings.maxLookahead = some form) :
    Consumes source s 1 Parse.declarationHead ({}, k.spelling, form) := by
  have hbase : k.beginsBase = true := by rw [TokenKind.beginsBase, hk, Bool.or_true, Bool.true_or]
  have hspecifiers : specifiers.run source s = (.ok {}, s) := by
    refine run_specifiers_of_sees hsees (TokenKind.introduces_of_beginsBase hbase) fun h => ?_
    rw [show k = .identifier from congrArg Lexeme.kind h] at hk
    cases hk
  have hkind : (source.view s).kind 0 = k := hsees.kind
  have hstarts : (source.view s).startsType = true := by
    have hqualifier : View.isQualifier k = false := by
      cases k <;> first | rfl | cases hk
    refine View.startsType_of_keyword (k := k) ?_ (.inr hk)
    rw [View.corePlace, View.past_eq_self (by rwa [hkind]), hkind]
  have htype : Consumes source s 1 Parse.typeName k.spelling := by
    have h : Consumes source s 1 Parse.typeName (joined [spelled k]) := typeName (List.forall_mem_nil _)
      (@IsCore.builtin s.cursor.known k [] (by simpa using hk)) (List.forall_mem_nil _) rfl hsees
    rwa [show joined [spelled k] = k.spelling from String.append_empty] at h
  refine look hspecifiers (look run_view ?_)
  rw [hstarts, if_pos rfl]
  have hformed : Consumes source s 1 Parse.formedType (k.spelling, form) := by
    refine htype.andLast (look (run_lookAhead _) ?_)
    rw [hform]
    exact .pure _
  exact hformed.andLast (.pure _)

namespace Grammar

/-- What comes of an item is what comes of the declaration. -/
theorem run_item_of_declaration {p : Parse Stmt} (hk : ((source.view s).kind 0).isBuiltinType = true)
    (h : g.declaration?.run source s = (some <$> p : Parse (Option Stmt)).run source t) :
    g.item.run source s = (some <$> p : Parse (Option Stmt)).run source t := by
  have hintroduces : ((source.view s).kind 0).introduces = false := by
    generalize (source.view s).kind 0 = k at hk
    cases k <;> first | rfl | cases hk
  have hname : (source.view s).kind 0 = .identifier → (source.view s).kind 1 ≠ .colonColon := by
    intro hidentifier
    rw [hidentifier] at hk
    cases hk
  unfold item
  rw [run_bind_ok (run_namedDeclaration_eq_none hintroduces), run_bind_ok (run_special_eq_none hintroduces hname)]
  rw [map_eq_bind] at h ⊢
  rw [run_bind, h, run_bind]
  rcases p.run source t with ⟨e | stmt, u⟩ <;> rfl

/-- Variables of a type with one keyword. -/
theorem run_item_of_variables (hk : k.isBuiltinType = true) (hcolons : w.kind ≠ .colonColon)
    (hparen : w.kind ≠ .lparen)
    (hsees : source.Sees s.cursor.position (spelled k :: Lexeme.name text :: w :: ws)) :
    g.item.run source s = (some <$> (.ofVariables <$> g.variableDecls {} k.spelling) :
      Parse (Option Stmt)).run source (s.after 1) := by
  have hnext : (source.view (s.after 1)).kind 1 = w.kind := hsees.next.next.kind
  have hform := View.declarationForm?_of_variable (v := source.view (s.after 1)) hsees.next.kind
    (by rwa [hnext]) (by rwa [hnext]) source.settings.maxLookahead
  have hhead := (Consumes.builtinHead hk hsees hform).speculate
  refine run_item_of_declaration (by rwa [show (source.view s).kind 0 = k from hsees.kind]) ?_
  unfold declaration?
  rw [run_bind_ok hhead, map_eq_bind, map_eq_bind, bind_assoc]
  rfl

/-- A function without parameters that gives a type with one keyword. -/
theorem run_item_of_function (hk : k.isBuiltinType = true)
    (hlookahead : 2 ≤ source.settings.maxLookahead)
    (hsees : source.Sees s.cursor.position (spelled k :: Lexeme.name text :: spelled .lparen ::
      spelled .rparen :: spelled .lbrace :: ws)) :
    g.item.run source s = (some <$> g.functionOrVariable {} k.spelling :
      Parse (Option Stmt)).run source (s.after 1) := by
  have hform := View.declarationForm?_of_body (v := source.view (s.after 1)) hsees.next.kind
    hsees.next.next.kind hsees.next.next.next.kind hsees.next.next.next.next.kind hlookahead
  have hhead := (Consumes.builtinHead hk hsees hform).speculate
  refine run_item_of_declaration (by rwa [show (source.view s).kind 0 = k from hsees.kind]) ?_
  unfold declaration?
  rw [run_bind_ok hhead]
  show (g.functionOrVariable {} k.spelling >>= fun stmt => pure (some stmt)).run source (s.after 1) = _
  rw [map_eq_bind]

end Grammar

end CTree
