import CTree.Proofs.Directives
import CTree.Proofs.Extent.Lines

/-!
# Texts that parsers give

Every text that a parser gives takes one line if the tokens do.
-/

namespace CTree

open Parse

namespace Source.InLine

variable {source : Source} {text type : String}

/-! ### Tokens and names -/

theorem advance : Yields source (fun t => source.InLine t.text) Parse.advance := by
  intro s t u hrun
  rw [run_advance] at hrun
  cases hrun
  exact token source _

theorem textSince (start : Nat) : Yields source source.InLine (Parse.textSince start) := by
  intro s text t hrun
  cases hrun
  exact between source start _

theorem require (k : TokenKind) (place : String) :
    Yields source (fun t => source.InLine t.text) (Parse.require k place) := by
  unfold Parse.require
  refine .after fun here => ?_
  split
  · exact advance
  · exact .expected _

theorem name (place : String) : Yields source source.InLine (Parse.name place) := by
  unfold Parse.name
  exact (require _ _).bind fun t ht => .pure ht

theorem nameOrNone : Yields source source.InLine Parse.nameOrNone := by
  unfold Parse.nameOrNone
  refine .after fun here => ?_
  split
  · exact advance.bind fun t ht => .pure ht
  · exact .pure (const (by decide))

theorem globalScope : Yields source source.InLine Parse.globalScope := by
  unfold Parse.globalScope
  refine .after fun scope => ?_
  split <;> exact .pure (const (by decide))

theorem qualifiedName : Yields source source.InLine Parse.qualifiedName := by
  have hsegment {path : String} (hpath : source.InLine path) :
      Yields source (Maybe source.InLine) (nameSegment path) := by
    unfold nameSegment
    refine .after fun colons => .after fun named => ?_
    split
    · refine .after fun _ => advance.bind fun t ht => .pure (Maybe.some ?_)
      exact (hpath.append (const (by decide))).append ht
    · exact .pure Maybe.none
  have hpath {scope : String} (hscope : source.InLine scope) : Yields source source.InLine (do
      let first ← Parse.name
      iterate nameSegment (scope ++ first)) :=
    (name _).bind fun first hfirst => .iterate (fun path hpath => hsegment hpath) (hscope.append hfirst)
  unfold Parse.qualifiedName
  refine .after fun cpp => ?_
  dsimp only
  split
  · exact globalScope.bind fun scope hscope => hpath hscope
  · exact hpath (const (by decide))

/-! ### Types -/

theorem typeName : Yields source source.InLine Parse.typeName := by
  unfold Parse.typeName
  exact .after fun start => .after fun _ => .after fun _ => textSince start

theorem templateArguments : Yields source (Each source.InLine) Parse.templateArguments := by
  have harguments (start : Nat) (inside : ArgumentNesting) (fuel : Nat) :
      Yields source (Each source.InLine) (argumentsFrom start inside fuel) := by
    induction fuel generalizing start inside with
    | zero => exact .expected _
    | succ fuel ih =>
      unfold argumentsFrom
      refine .after fun k => ?_
      split
      · exact .expected _
      · rename_i extra hstep
        have hextra : source.InLine extra := by
          unfold ArgumentNesting.step at hstep
          repeat' split at hstep
          all_goals cases hstep <;> exact const (by decide)
        refine (textSince start).bind fun text htext => .after fun _ => .pure ?_
        exact Each.single (htext.append hextra)
      · refine (textSince start).bind fun text htext => .after fun _ => .after fun next => ?_
        exact (ih next _).bind fun rest hrest => .pure (Each.cons htext hrest)
      · exact .after fun _ => ih start _
  unfold Parse.templateArguments
  refine .after fun _ => .after fun start => .after fun v => (harguments _ _ _).bind fun values h => ?_
  split
  · exact .pure Each.nil
  · exact .pure h

theorem templateText {path : String} {arguments : List String} (hpath : source.InLine path)
    (h : Each source.InLine arguments) : source.InLine (Parse.templateText path arguments) := by
  have hlist : source.InLine (String.intercalate ", " arguments) := intercalate (const (by decide)) h
  exact ((hpath.append (const (by decide))).append hlist).append (const (by decide))

theorem typeInParentheses (place : String) : Yields source source.InLine (Parse.typeInParentheses place) := by
  unfold Parse.typeInParentheses
  exact .after fun _ => typeName.bind fun type h => .after fun _ => .pure h

theorem parenthesizedType : Yields source (Maybe source.InLine) Parse.parenthesizedType := by
  unfold Parse.parenthesizedType
  refine .after fun here => .after fun v => ?_
  split
  · exact (typeInParentheses _).speculate
  · exact .pure Maybe.none

theorem castType : Yields source (Maybe source.InLine) Parse.castType := by
  have hhead : Yields source source.InLine castHead := by
    unfold castHead
    refine (typeInParentheses _).bind fun type h => .after fun k => ?_
    split
    · exact .pure h
    · exact .unexpected _
  unfold Parse.castType
  refine .strictly (.after fun v => ?_)
  split
  · exact hhead.speculate
  · exact .pure Maybe.none

/-! ### Declarators -/

theorem takeTexts (p : TokenKind → Bool) (h : source.InLine text) :
    Yields source source.InLine (Parse.takeTexts p text) := by
  unfold Parse.takeTexts
  refine .iterate (fun text htext => .after fun k => ?_) h
  split
  · exact advance.bind fun t ht => .pure (Maybe.some (htext.append ht))
  · exact .pure Maybe.none

theorem bracketTexts (h : source.InLine text) : Yields source source.InLine (Parse.bracketTexts text) := by
  unfold Parse.bracketTexts
  refine .iterate (fun text htext => .after fun here => ?_) h
  split
  · refine .after fun start => .after fun _ => (textSince start).bind fun group hgroup => ?_
    exact .pure (Maybe.some (htext.append hgroup))
  · exact .pure Maybe.none

/-- A name and what stands around it. -/
abbrev Both (source : Source) (r : String × String) : Prop :=
  source.InLine r.1 ∧ source.InLine r.2

theorem functionPointer {p : Parse String} (hp : Yields source source.InLine p) :
    Yields source (Both source) (Parse.functionPointer p) := by
  unfold Parse.functionPointer
  refine .after fun _ => .after fun _ => hp.bind fun name hname => .after fun _ => .after fun start => ?_
  refine .after fun _ => (textSince start).bind fun group hgroup => .pure ⟨hname, ?_⟩
  exact (const (by decide)).append hgroup

theorem declaredName {p q : Parse String} (hp : Yields source source.InLine p)
    (hq : Yields source source.InLine q) : Yields source (Both source) (Parse.declaredName p q) := by
  unfold Parse.declaredName
  refine .after fun pointer => ?_
  split
  · exact functionPointer hp
  · exact hq.bind fun name hname => .pure ⟨hname, empty⟩

theorem storage {specs : Specifiers} : Maybe source.InLine specs.storage? := by
  intro storage h
  unfold Specifiers.storage? at h
  split_ifs at h <;> cases h <;> exact const (by decide)

theorem functionQualifiers :
    Yields source (fun q => Maybe source.InLine q.trailing?) Parse.functionQualifiers := by
  have hview {v : View} {q q' : FunctionQualifiers} {n : Nat}
      (h : v.functionQualifier? q = some (n, q')) : q'.trailing? = q.trailing? := by
    unfold View.functionQualifier? at h
    repeat' split at h
    all_goals cases h <;> rfl
  unfold Parse.functionQualifiers
  refine .iterate (fun q hq => ?_) Maybe.none
  unfold Parse.functionQualifier
  refine .after fun k => ?_
  split
  · exact .after fun _ => .pure (Maybe.some hq)
  · exact .after fun _ => .pure (Maybe.some hq)
  · refine .after fun cpp => ?_
    split
    · exact .after fun _ => typeName.bind fun type h => .pure (Maybe.some (Maybe.some h))
    · exact .pure Maybe.none
  · refine .after fun v => ?_
    split
    · rename_i q' hq'
      exact .after fun _ => .pure (Maybe.some (hview hq' ▸ hq))
    · rename_i q' _ hq'
      exact .after fun _ => .after fun _ => .pure (Maybe.some (hview hq' ▸ hq))
    · exact .pure Maybe.none

theorem returnType {q : FunctionQualifiers} (hq : Maybe source.InLine q.trailing?)
    (h : source.InLine type) : source.InLine (q.returnType type) := by
  unfold FunctionQualifiers.returnType
  split
  · rename_i trailing htrailing
    split
    · exact hq trailing htrailing
    · exact h
  · exact h

theorem operatorSymbol : Yields source source.InLine Parse.operatorSymbol := by
  unfold Parse.operatorSymbol
  refine .after fun k => .after fun next => ?_
  have hkeyword : Yields source source.InLine (do
      let symbol := (← Parse.advance).text
      if ← emptyBrackets then return symbol ++ "[]" else return symbol) := by
    refine advance.bind fun t ht => .after fun brackets => ?_
    split
    · exact .pure (ht.append (const (by decide)))
    · exact .pure ht
  split
  · exact .after fun _ => .after fun _ => .pure (const (by decide))
  · exact .after fun _ => .after fun _ => .pure (const (by decide))
  · exact hkeyword
  · exact hkeyword
  · exact .after fun _ => advance.bind fun t ht => .pure ((const (by decide)).append ht)
  · split
    · exact advance.bind fun t ht => .pure ht
    · exact typeName.leniently

theorem memberName : Yields source source.InLine Parse.memberName := by
  unfold Parse.memberName
  refine .after fun destructor => ?_
  split
  · exact (name _).bind fun last h => .pure ((const (by decide)).append h)
  · refine .after fun _ => .after fun cpp => ?_
    split
    · exact qualifiedName
    · exact name _

end Source.InLine

end CTree
