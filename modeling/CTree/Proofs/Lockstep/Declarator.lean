import CTree.Proofs.Lockstep.Expression

/-!
# Declarators and definitions of types in lockstep
-/

namespace CTree

/-! ### Parts of declarators that need no grammar -/

namespace Lockstep

variable {a b : Source} {n k : Nat} {P : ParseState → Prop}

theorem operatorSymbol : Lockstep a b n P k never Parse.operatorSymbol Parse.operatorSymbol := by
  unfold Parse.operatorSymbol
  refine .kind fun t => .kindAhead fun next => ?_
  split
  · exact .bind skipAnywhere fun _ => .bind skipAnywhere fun _ => .pure _
  · exact .bind skipAnywhere fun _ => .bind skipAnywhere fun _ => .pure _
  · refine .bind advanceAnywhere fun symbol => .bind emptyBrackets fun isArray => ?_
    split
    · exact .pure _
    · exact .pure _
  · refine .bind advanceAnywhere fun symbol => .bind emptyBrackets fun isArray => ?_
    split
    · exact .pure _
    · exact .pure _
  · exact .bind skipAnywhere fun _ => .bind advanceAnywhere fun suffix => .pure _
  · split
    · exact .bind advanceAnywhere fun symbol => .pure _
    · exact leniently typeName

theorem memberInitPath :
    Lockstep a b n P k always Parse.memberInitPath Parse.memberInitPath := by
  unfold Parse.memberInitPath
  refine .andThen qualifiedName fun path => .test fun angle => ?_
  split
  · exact .bind templateArguments.still fun arguments => .pure _
  · exact .pure _

theorem tag (keyword : String) :
    Lockstep a b n P k never (Parse.tag keyword) (Parse.tag keyword) := by
  unfold Parse.tag
  refine .bind nameOrNone fun tag => ?_
  split
  · exact .pure _
  · exact .bind (register _) fun _ => .bind (register _) fun _ => .pure _

theorem baseMark (mark : Access × Bool) :
    Lockstep a b n P k never (Parse.baseMark mark) (Parse.baseMark mark) := by
  unfold Parse.baseMark
  refine .kind fun t => ?_
  split
  · exact .bind skipAnywhere fun _ => .pure _
  · split
    · exact .bind skipAnywhere fun _ => .pure _
    · exact .pure _

theorem baseClass (default : Access) :
    Lockstep a b n P k never (Parse.baseClass default) (Parse.baseClass default) := by
  unfold Parse.baseClass
  refine .bind (iterate baseMark _) fun mark => .bind (leniently typeName) fun type => ?_
  exact .bind (acceptAnywhere .ellipsis) fun _ => .pure _

theorem baseClasses (key : ClassKey) :
    Lockstep a b n P k never (Parse.baseClasses key) (Parse.baseClasses key) := by
  unfold Parse.baseClasses
  refine .bind (acceptAnywhere .colon) fun colon => ?_
  split
  · exact separated (baseClass _)
  · exact .pure _

theorem className (keyword : String) :
    Lockstep a b n P k never (Parse.className keyword) (Parse.className keyword) := by
  unfold Parse.className
  refine .bind (tag keyword) fun tag => .isCpp fun cpp => .test fun angle => ?_
  split
  · exact .bind templateArguments.still fun arguments => .pure _
  · exact .pure _

theorem scopeMark : Lockstep a b n P k never Parse.scopeMark Parse.scopeMark := by
  unfold Parse.scopeMark
  refine .kind fun t => ?_
  split
  · exact .bind skipAnywhere fun _ => .pure _
  · exact .bind skipAnywhere fun _ => .pure _
  · exact .pure _

/-! ### Synonyms -/

theorem synonymDeclarator :
    Lockstep a b n P k never Parse.synonymDeclarator Parse.synonymDeclarator := by
  unfold Parse.synonymDeclarator
  refine .bind (takeTexts _ _) fun pointers => .bind atFunctionPointer fun pointer => ?_
  split
  · exact .bind (functionPointer (name _).still).still fun declared => .pure _
  · exact .bind (name _).still fun name => .bind (bracketTexts _) fun suffix => .pure _

theorem synonymOf (type : String) (definition? : Option Decl) (d : SynonymDeclarator) :
    Lockstep a b n P k never (Parse.synonymOf type definition? d)
      (Parse.synonymOf type definition? d) := by
  unfold Parse.synonymOf
  exact .bind (register _) fun _ => .pure _

theorem moreSynonyms (type : String) :
    Lockstep a b n P k never (Parse.moreSynonyms type) (Parse.moreSynonyms type) := by
  unfold Parse.moreSynonyms
  refine .bind (acceptAnywhere .comma) fun more => ?_
  split
  · exact separated (.bind synonymDeclarator fun d => synonymOf _ _ d)
  · exact .pure _

theorem usingDeclaration :
    Lockstep a b n P k always Parse.usingDeclaration Parse.usingDeclaration := by
  unfold Parse.usingDeclaration
  refine .andThen (skipOver .kwUsing _ nofun) fun _ => ?_
  refine .bind (acceptAnywhere .kwNamespace) fun whole => ?_
  split
  · refine .bind qualifiedName.still fun target => ?_
    exact .bind (skipOverAnywhere .semicolon _) fun _ => .pure _
  · refine .test fun named => .checkAhead fun assigned => ?_
    split
    · refine .bind advanceAnywhere fun t => .bind skipAnywhere fun _ => ?_
      refine .bind (leniently typeName) fun type => ?_
      refine .bind (skipOverAnywhere .semicolon _) fun _ => ?_
      exact .bind (register _) fun _ => .pure _
    · refine .bind (acceptAnywhere .kwTypename) fun _ => .bind qualifiedName.still fun path => ?_
      exact .bind (skipOverAnywhere .semicolon _) fun _ => .pure _

end Lockstep

namespace Grammar

namespace InStep

open Lockstep

variable {a b : Source} {n k : Nat} {P : ParseState → Prop} {g g' : Grammar}

section Declarators

variable (hg : InStep a b n g g')
include hg

/-! ### Declarators -/

theorem variableInit (type : String) :
    Lockstep a b n P k never (g.variableInit type) (g'.variableInit type) := by
  unfold Grammar.variableInit
  refine .bindBool (accept .assign nofun) (.andThen hg.initializer fun value => .pure _) ?_
  refine .isCpp fun cpp => .test fun brace => ?_
  split
  · exact .andThen hg.bracedList fun es => .pure _
  · refine .bindBool (accept .lparen nofun) ?_ (.pure _)
    exact .andThen (hg.arguments .rparen nofun) fun values => .pure _

theorem variableOf (storage? : Option String) (type : String) :
    Lockstep a b n P k always (g.variableOf storage? type) (g'.variableOf storage? type) := by
  unfold Grammar.variableOf
  refine .andThen qualifiedName fun name => .bind hg.dimensions fun dimensions => ?_
  exact .bind (hg.variableInit type) fun init? => .pure _

theorem variableDecls (specs : Specifiers) (type : String) :
    Lockstep a b n P k always (g.variableDecls specs type) (g'.variableDecls specs type) := by
  unfold Grammar.variableDecls
  refine .bind (chain (fun type => (hg.variableOf _ type).still) (takeTexts _ _) type) fun vs => ?_
  exact .andThen (skipOver .semicolon _ nofun) fun _ => .pure _

theorem functionRest (specs : Specifiers) (type name : String) (ps : List Parameter) :
    Lockstep a b n P k always (g.functionRest specs type name ps)
      (g'.functionRest specs type name ps) := by
  unfold Grammar.functionRest
  exact .bind functionQualifiers fun q => .andThen hg.functionBody fun body? => .pure _

theorem directArguments :
    Lockstep a b n P k always g.directArguments g'.directArguments := by
  unfold Grammar.directArguments
  refine .andThen (skipOver .lparen _ nofun) fun _ => ?_
  refine .andThen (hg.arguments .rparen nofun) fun values => ?_
  exact .andThen (skipOver .semicolon _ nofun) fun _ => .pure _

theorem functionOrVariable (specs : Specifiers) (type : String) :
    Lockstep a b n P k always (g.functionOrVariable specs type)
      (g'.functionOrVariable specs type) := by
  unfold Grammar.functionOrVariable
  refine .andThen qualifiedName fun name => ?_
  refine .bind (speculate (strictly hg.parameters)).still fun ps? => ?_
  split
  · exact .andThen (hg.functionRest _ _ _ _) fun f => .pure _
  · refine .bind (speculate hg.directArguments).still fun values? => ?_
    split
    · exact .pure _
    · refine .andThen (leniently hg.parameters) fun ps => ?_
      exact .andThen (hg.functionRest _ _ _ _) fun f => .pure _

theorem freeOperator (type : String) :
    Lockstep a b n P k always (g.freeOperator type) (g'.freeOperator type) := by
  unfold Grammar.freeOperator
  refine .bind (iterate (fun _ => .test fun named => ?_) _) fun _ => ?_
  · split
    · exact .bind skipAnywhere fun _ => .bind skipAnywhere fun _ => .pure _
    · exact .pure _
  · refine .andThen (skipOver .kwOperator _ nofun) fun _ => .bind operatorSymbol fun symbol => ?_
    refine .andThen (leniently hg.parameters) fun ps => .bind functionQualifiers fun q => ?_
    exact .andThen hg.functionBody fun body? => .pure _

theorem memberInitValues :
    Lockstep a b n P k always g.memberInitValues g'.memberInitValues := by
  unfold Grammar.memberInitValues
  refine .bindBool (accept .lparen nofun) (hg.arguments .rparen nofun).still (.test fun brace => ?_)
  split
  · exact hg.initializerList
  · exact expected _

theorem memberInit (bases : List BaseClass) :
    Lockstep a b n P k never (g.memberInit bases) (g'.memberInit bases) := by
  unfold Grammar.memberInit
  refine .andThen memberInitPath fun path => .andThen hg.memberInitValues fun values => ?_
  exact .bind (acceptAnywhere .ellipsis) fun _ => .isKnown fun known => .pure _

theorem constructorRest (name : String) (access : Access) (isExplicit : Bool)
    (ps : List Parameter) (bases : List BaseClass) :
    Lockstep a b n P k always (g.constructorRest name access isExplicit ps bases)
      (g'.constructorRest name access isExplicit ps bases) := by
  unfold Grammar.constructorRest
  refine .bind functionQualifiers fun _ => .bind (acceptAnywhere .colon) fun colon => ?_
  split
  · refine .bind (separated (hg.memberInit bases)) fun initializers => ?_
    exact .andThen hg.functionBody fun body? => .pure _
  · refine .bind (.pure _) fun initializers => ?_
    exact .andThen hg.functionBody fun body? => .pure _

theorem destructorRest (name : String) (access : Access) (isVirtual : Bool) :
    Lockstep a b n P k always (g.destructorRest name access isVirtual)
      (g'.destructorRest name access isVirtual) := by
  unfold Grammar.destructorRest
  refine .andThen hg.parameters fun _ => .bind functionQualifiers fun _ => ?_
  exact .andThen hg.functionBody fun body? => .pure _

end Declarators

section Types

variable (hg : InStep a b n g g')
include hg

/-! ### Definitions of types -/

theorem classType {m : ClassDecl → Prop} (hP : a.Takes n k P m) :
    Lockstep a b n P k m g.classType g'.classType := by
  unfold Grammar.classType
  refine .taking hP advance fun t => .bind (className _) fun name => ?_
  refine .bind (acceptAnywhere .kwFinal) fun _ => .kind fun t => ?_
  split
  · refine .bind (baseClasses _) fun bases => .andThen (skipOver .lbrace _ nofun) fun _ => ?_
    exact .bind (hg.parseMembers _ _ _) fun members => .bind (closeBrace _) fun _ => .pure _
  · refine .bind (baseClasses _) fun bases => .andThen (skipOver .lbrace _ nofun) fun _ => ?_
    exact .bind (hg.parseMembers _ _ _) fun members => .bind (closeBrace _) fun _ => .pure _
  · exact .pure _

theorem enumerator : Lockstep a b n P k always g.enumerator g'.enumerator := by
  unfold Grammar.enumerator
  refine .andThen (name _) fun name => ?_
  exact .bind (optionalAfter .assign hg.expression.still nofun).still fun value? => .pure _

theorem enumerators : Lockstep a b n P k never g.enumerators g'.enumerators := by
  unfold Grammar.enumerators
  refine .bind (acceptAnywhere .lbrace) fun brace => ?_
  split
  · refine .bind (commaList _ hg.enumerator.still) fun es => .bind (closeBrace _) fun _ => .pure _
  · exact .pure _

theorem enumType : Lockstep a b n P k always g.enumType g'.enumType := by
  unfold Grammar.enumType
  refine .andThen (skipOver .kwEnum _ nofun) fun _ => .bind scopeMark fun isScoped => ?_
  refine .bind (tag _) fun name => ?_
  refine .bind (optionalAfter .colon (leniently typeName) nofun).still fun underlying? => ?_
  exact .bind hg.enumerators fun es => .pure _

theorem typeDefinition? :
    Lockstep a b n P k present g.typeDefinition? g'.typeDefinition? := by
  unfold Grammar.typeDefinition?
  refine .lookAhead (fun _ _ _ h h' => View.atClass_ample h h') fun isClass => ?_
  split
  · rename_i hclass
    refine .andThen (hg.classType (.inl fun s hs => ?_)) fun c => .pure _
    exact View.kind_of_atClass (hs.2.trans hclass)
  · refine .view fun v => ?_
    split
    · exact .andThen hg.enumType fun e => .pure _
    · exact .result Bool.false_ne_true

theorem synonymTarget : Lockstep a b n P k never g.synonymTarget g'.synonymTarget := by
  unfold Grammar.synonymTarget
  refine .bind hg.typeDefinition?.still fun definition? => ?_
  split
  · exact .pure _
  · exact .bind (leniently (.bind specifiers fun _ => typeName)) fun type => .pure _

theorem typedefs : Lockstep a b n P k always g.typedefs g'.typedefs := by
  unfold Grammar.typedefs
  refine .andThen (skipOver .kwTypedef _ nofun) fun _ => .bind hg.synonymTarget fun target => ?_
  refine .bind synonymDeclarator fun d => .bind (synonymOf _ _ d) fun first => ?_
  refine .bind (moreSynonyms _) fun rest => .bind (skipOverAnywhere .semicolon _) fun _ => .pure _

end Types

end InStep

end Grammar

end CTree
