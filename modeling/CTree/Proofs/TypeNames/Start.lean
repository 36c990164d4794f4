import CTree.Proofs.Containment.Yields
import CTree.Proofs.TypeNames.Angles
import CTree.Proofs.Words

/-!
# Where a type begins

Before a declaration, a cast or the operand of `sizeof` is read as a type, a cheap test decides whether a
type may begin there. It is meant to say yes wherever a type can be read. It does, with one exception,
which is a fault: it expects the `::` that makes a path of unknown names a type right after the first
name, and so overlooks the paths whose first name has template arguments.
-/

namespace CTree

open Parse

variable {α σ : Type} {source : Source} {s t : ParseState}

/-! ### Loops -/

namespace Parse

variable {step : σ → Parse (Option σ)} {a b : σ}

/-- A loop ends at once, or its first step gives a value. -/
theorem of_run_iterate (h : (iterate step a).run source s = (.ok b, t)) :
    (step a).run source s = (.ok none, t) ∧ b = a ∨
      ∃ c u, (step a).run source s = (.ok (some c), u) := by
  rw [iterate, run_bind_ok run_view, iterateFor] at h
  obtain ⟨r, u, hstep, hrest⟩ := exists_of_run_bind h
  cases r with
  | none =>
    cases hrest
    exact .inl ⟨hstep, rfl⟩
  | some c => exact .inr ⟨c, u, hstep⟩

/-- A loop whose steps always succeed ends with a value, of which holds what holds of the first value
and of each later one. -/
theorem run_iterateFor_ok {P : σ → Prop}
    (hstep : ∀ a s, ∃ r t, (step a).run source s = (.ok r, t) ∧ ∀ b ∈ r, P b) (ha : P a) (n : Nat) :
    ∃ b t, (iterateFor step n a).run source s = (.ok b, t) ∧ P b := by
  induction n generalizing a s with
  | zero => exact ⟨a, s, rfl, ha⟩
  | succ n ih =>
    obtain ⟨r, u, hr, hP⟩ := hstep a s
    rw [iterateFor, run_bind_ok hr]
    cases r with
    | none => exact ⟨a, u, rfl, ha⟩
    | some c => exact ih (hP c rfl)

/-- A run of tokens of a class is taken up to the first token of another kind. -/
theorem run_skipWhile {c : TokenKind → Bool} (hc : c .eof = false) :
    (skipWhile c).run source s = (.ok (), s.after ((source.view s).past c 0)) := by
  -- The loop and the look ahead both go no further than there are tokens left.
  have hfor (fuel n : Nat) (hn : source.stream.size ≤ s.cursor.position + n + fuel) :
      (iterateFor (fun _ => do if c (← kind) then skip; return some () else return none)
        (fuel + 1) ()).run source (s.after n) =
          (.ok (), s.after ((source.view s).pastFor c fuel n)) := by
    induction fuel generalizing n with
    | zero =>
      have hend : (source.view (s.after n)).kind 0 = .eof := by
        refine Source.kind_of_le ?_
        have hsize : source.stream.size = source.stream.body.size + 1 := rfl
        rw [ParseState.position_after]
        omega
      rw [iterateFor, bind_assoc, run_bind_ok run_kind, hend, hc]
      rfl
    | succ fuel ih =>
      rw [iterateFor, bind_assoc, run_bind_ok run_kind, View.pastFor,
        show (source.view (s.after n)).kind 0 = (source.view s).kind n from rfl]
      by_cases hk : c ((source.view s).kind n) = true
      · have heof : (source.view (s.after n)).kind 0 ≠ .eof := fun h => by
          rw [show (source.view s).kind n = .eof from h, hc] at hk
          cases hk
        rw [if_pos hk, if_pos hk, bind_assoc, run_bind_ok (run_skip_of_token heof),
          ParseState.after_after]
        exact ih (n + 1) (by omega)
      · rw [if_neg hk, if_neg hk]
        rfl
  rw [skipWhile, iterate, run_bind_ok run_view]
  refine hfor (source.view s).remaining 0 ?_
  have hremaining : (source.view s).remaining = source.stream.size - s.cursor.position := rfl
  omega

end Parse

/-! ### Paths -/

/-- Template arguments come next, and after them `::` and a name. -/
def Source.ScopedArguments (source : Source) (s : ParseState) : Prop :=
  ∃ arguments t, templateArguments.run source s = (.ok arguments, t) ∧
    (source.view t).kind 0 = .colonColon ∧ (source.view t).kind 1 = .identifier

namespace Parse

variable {path path' : TypePath}

/-- A path goes on only with `::` and a name. -/
theorem of_run_plainSegment (h : (plainSegment path).run source s = (.ok (some path'), t)) :
    (source.view s).kind 0 = .colonColon ∧ (source.view s).kind 1 = .identifier := by
  unfold plainSegment at h
  rw [run_bind_ok (run_check _), run_bind_ok (run_checkAhead _ _)] at h
  split at h
  · rename_i hboth
    obtain ⟨hcolons, hname⟩ := Bool.and_eq_true_iff.1 hboth
    exact ⟨beq_iff_eq.1 hcolons, beq_iff_eq.1 hname⟩
  · cases h

/-- A path goes on right here, or in C++ after template arguments. -/
theorem of_run_typeSegment (h : (typeSegment path).run source s = (.ok (some path'), t)) :
    (source.view s).kind 0 = .colonColon ∨
      (source.view s).isCpp = true ∧ source.ScopedArguments s := by
  unfold typeSegment at h
  rw [run_bind_ok run_isCpp, run_bind_ok (run_check _)] at h
  split at h
  · rename_i hboth
    obtain ⟨r, u, hattempt, hsegment⟩ := exists_of_run_bind h
    cases r with
    | none =>
      obtain rfl := (tokenFrames source).templateArguments.speculate_none
        KeepsNames.templateArguments s u hattempt
      exact .inl (of_run_plainSegment hsegment).1
    | some arguments =>
      refine .inr ⟨(Bool.and_eq_true_iff.1 hboth).1, arguments, u, of_run_speculate hattempt, ?_⟩
      exact of_run_plainSegment hsegment
  · exact .inl (of_run_plainSegment h).1

theorem run_globalScope_of_name (hname : (source.view s).kind 0 = .identifier) :
    globalScope.run source s = (.ok "", s) := by
  unfold globalScope accept
  rw [bind_assoc, run_bind_ok (run_check _), hname]
  rfl

/-- A path that begins with a name is that name, unless `::` comes next, or in C++ template arguments
and `::`. -/
theorem of_run_typePath (hname : (source.view s).kind 0 = .identifier)
    (h : typePath.run source s = (.ok path, t)) :
    path = ⟨((source.view s).token 0).text, ((source.view s).token 0).text⟩ ∨
      (source.view s).kind 1 = .colonColon ∨
      (source.view s).isCpp = true ∧ source.ScopedArguments (s.after 1) := by
  unfold typePath at h
  rw [run_bind_ok (run_globalScope_of_name hname)] at h
  obtain ⟨first, u, hfirst, hsegments⟩ := exists_of_run_bind h
  unfold Parse.name at hfirst
  obtain ⟨token, v, htoken, hlast⟩ := exists_of_run_bind hfirst
  obtain ⟨-, rfl, rfl⟩ := of_run_require (by decide) htoken
  cases hlast
  rcases of_run_iterate hsegments with ⟨-, rfl⟩ | ⟨path', v, hsegment⟩
  · exact .inl (by rw [String.empty_append])
  · exact .inr (of_run_typeSegment hsegment)

end Parse

/-! ### The test -/

namespace View

variable {v : View}

/-- The place where the core of a type stands, if a type begins at the current token. -/
def corePlace (v : View) : Nat :=
  v.past isQualifier 0

/-- A type begins with a keyword of a class, an enumeration or a type. -/
theorem startsType_of_keyword {k : TokenKind} (hk : v.kind v.corePlace = k)
    (h : k ∈ [.kwStruct, .kwClass, .kwUnion, .kwEnum, .kwTypename, .kwDecltype] ∨
      k.isBuiltinType = true) : v.startsType = true := by
  have hkind : (v.token (v.past isQualifier 0)).kind = k := hk
  unfold startsType
  simp only [hkind]
  rcases h with h | h
  · simp only [List.mem_cons, List.not_mem_nil, or_false] at h
    rcases h with rfl | rfl | rfl | rfl | rfl | rfl <;> rfl
  · split <;> first | rfl | exact h | cases h

theorem startsType_of_name (hk : v.kind v.corePlace = .identifier) :
    v.startsType = (v.lenient || v.isKnown (v.token v.corePlace).text ||
      (v.isCpp && v.kind (v.corePlace + 1) == .colonColon)) := by
  have hkind : (v.token (v.past isQualifier 0)).kind = .identifier := hk
  unfold startsType
  simp only [hkind]
  rfl

theorem startsType_of_scope (hk : v.kind v.corePlace = .colonColon) : v.startsType = v.isCpp := by
  have hkind : (v.token (v.past isQualifier 0)).kind = .colonColon := hk
  unfold startsType
  simp only [hkind]

end View

/-- The paths that may be types and that are overlooked by the test. Only the first of these cases is
found in a text, where `::` is no token of C and every name is a word. -/
inductive Source.Overlooked (source : Source) (s : ParseState) : Prop
  /-- The first name has template arguments. -/
  | arguments (hcpp : (source.view s).isCpp = true)
      (hname : (source.view s).kind (source.view s).corePlace = .identifier)
      (hscoped : source.ScopedArguments (s.after ((source.view s).corePlace + 1)))
  /-- A token of C++ stands in a source of C. -/
  | scope (hc : (source.view s).isCpp = false)
      (hcolons : (source.view s).kind (source.view s).corePlace = .colonColon ∨
        (source.view s).kind (source.view s).corePlace = .identifier ∧
          (source.view s).kind ((source.view s).corePlace + 1) = .colonColon)
  /-- A single name has `::` in it. -/
  | name (hcpp : (source.view s).isCpp = true)
      (hname : (source.view s).kind (source.view s).corePlace = .identifier)
      (hqualified : TypeText.isQualified
        ((source.view s).token (source.view s).corePlace).text = true)

namespace Parse

variable {path : TypePath}

/-- A path is a type after it has been read if it was one before. -/
theorem accepts_of_run_typePath {path' : TypePath} (hrun : typePath.run source s = (.ok path, t)) :
    (source.view t).accepts path' = (source.view s).accepts path' := by
  have hlenient : t.lenient = s.lenient := ((tokenFrames source).typePath.of_run hrun).lenient
  have hnames : KeepsNames source typePath := .typePath
  have hknown := hnames s
  rw [hrun] at hknown
  have hisKnown (x : String) : (source.view t).isKnown x = (source.view s).isKnown x :=
    congrArg (·.contains x) hknown
  unfold View.accepts
  rw [hisKnown, hisKnown, show (source.view t).lenient = (source.view s).lenient from hlenient]
  rfl

/-- Where a path is read and is a type by itself, a type is seen to begin, or it is overlooked. -/
theorem startsType_of_namedType (hname : (source.view s).kind (source.view s).corePlace = .identifier)
    (hrun : namedType.run source (s.after (source.view s).corePlace) = (.ok (), t)) :
    (source.view s).startsType = true ∨ source.Overlooked s := by
  unfold namedType at hrun
  obtain ⟨path, u, hpath, hrest⟩ := exists_of_run_bind hrun
  rw [run_bind_ok run_view] at hrest
  rw [View.startsType_of_name hname]
  rcases of_run_typePath hname hpath with hsingle | hcolons | ⟨hcpp, hscoped⟩
  · have haccepts : (source.view s).accepts path = true := by
      rw [accepts_of_run_typePath hpath] at hrest
      split at hrest
      · assumption
      · cases hrest
    subst hsingle
    simp only [View.accepts, Bool.or_eq_true, Bool.and_eq_true, or_self, or_assoc] at haccepts
    rcases haccepts with hlenient | hknown | ⟨hcpp, hqualified⟩
    · exact .inl (by rw [hlenient, Bool.true_or, Bool.true_or])
    · refine .inl ?_
      rw [show (source.view s).isKnown ((source.view s).token (source.view s).corePlace).text = true
        from hknown, Bool.or_true, Bool.true_or]
    · exact .inr (.name hcpp hname hqualified)
  · have hcolons : (source.view s).kind ((source.view s).corePlace + 1) = .colonColon := hcolons
    cases hcpp : (source.view s).isCpp with
    | true => exact .inl (by rw [hcolons, beq_self_eq_true, Bool.and_true, Bool.or_true])
    | false => exact .inr (.scope hcpp (.inr ⟨hname, hcolons⟩))
  · exact .inr (.arguments hcpp hname (ParseState.after_after _ _ ▸ hscoped))

/-- Where the core of a type is read, a type is seen to begin, or it is overlooked. -/
theorem startsType_of_bareCore
    (hrun : bareCore.run source (s.after (source.view s).corePlace) = (.ok (), t)) :
    (source.view s).startsType = true ∨ source.Overlooked s := by
  unfold bareCore at hrun
  rw [run_bind_ok run_kind] at hrun
  split at hrun
  case h_6 h => exact .inl (View.startsType_of_keyword h (by simp))
  case h_7 h => exact startsType_of_namedType h hrun
  case h_8 h =>
    cases hcpp : (source.view s).isCpp with
    | true => exact .inl ((View.startsType_of_scope h).trans hcpp)
    | false => exact .inr (.scope hcpp (.inl h))
  case h_9 =>
    split at hrun
    · rename_i hbuiltin
      exact .inl (View.startsType_of_keyword rfl (.inr hbuiltin))
    · cases hrun
  all_goals
    rename_i h
    exact .inl (View.startsType_of_keyword h (by simp))

/-- Wherever a type can be read, a type is seen to begin, but for the types that are overlooked. -/
theorem startsType_of_typeName {text : String}
    (hrun : typeName.run source s = (.ok text, t)) :
    (source.view s).startsType = true ∨ source.Overlooked s := by
  unfold typeName at hrun
  rw [run_bind_ok run_position] at hrun
  obtain ⟨_, u, hcore, -⟩ := exists_of_run_bind hrun
  unfold typeCore at hcore
  rw [run_bind_ok (run_skipWhile rfl)] at hcore
  obtain ⟨_, v, hbare, -⟩ := exists_of_run_bind hcore
  exact startsType_of_bareCore hbare

/-- A name with a scope is seen, also where qualifiers stand before it. -/
theorem startsType_of_typeName_scoped :
    let source := (Session.start {} "const std::string &x".toList).source
    (typeName.run source {}).1.toOption = some "const std::string&" ∧
      (source.view {}).startsType = true := by
  intro source
  obtain ⟨hresult, hcpp, hlt, hunqualified⟩ :
      (typeName.run source {}).1.toOption = some "const std::string&" ∧
      (source.view {}).isCpp ≠ false ∧
      (source.view (ParseState.after {} ((source.view {}).corePlace + 1))).kind 0 ≠ .lt ∧
      TypeText.isQualified ((source.view {}).token (source.view {}).corePlace).text ≠ true := by
    decide +kernel
  refine ⟨hresult, (startsType_of_typeName (run_of_toOption hresult)).resolve_right ?_⟩
  rintro (⟨-, -, arguments, t, harguments, -⟩ | ⟨hc, -⟩ | ⟨-, -, hqualified⟩)
  · exact hlt (of_run_templateArguments harguments).1
  · exact hcpp hc
  · exact hunqualified hqualified

/-- The type of `a<int>::b x;` is overlooked. -/
theorem startsType_overlooks :
    ¬ ∀ (source : Source) (s t : ParseState) (text : String),
      typeName.run source s = (.ok text, t) → (source.view s).startsType = true := by
  intro h
  obtain ⟨hresult, hstarts⟩ :
      (typeName.run (Session.start {} "a<int>::b x;".toList).source {}).1.toOption =
        some "a<int>::b" ∧
      ((Session.start {} "a<int>::b x;".toList).source.view {}).startsType = false := by
    decide +kernel
  exact Bool.false_ne_true (hstarts.symm.trans (h _ _ _ _ (run_of_toOption hresult)))

end Parse

/-! ### What is overlooked -/

/-- A word has no scope. -/
theorem Rule.IsWord.isQualified_eq_false {text : String} (h : Rule.IsWord text) :
    TypeText.isQualified text = false := by
  have hscope {cs : List Char} (hcs : ∀ c ∈ cs, Text.isAsciiWord c = true) :
      TypeText.hasScope cs = false := by
    induction cs with
    | nil => rfl
    | cons c cs ih =>
      rw [TypeText.hasScope.eq_def]
      split
      · rename_i heq
        cases heq
        exact absurd (hcs ':' List.mem_cons_self) (by decide)
      · rename_i heq
        cases heq
        exact ih fun c hc => hcs c (List.mem_cons_of_mem _ hc)
      · rfl
  exact hscope h.isAsciiWord

/-- What is overlooked in a text is a name with template arguments and `::` after them. -/
theorem Source.Overlooked.of_start {settings : Settings} {text : List Char}
    (h : (Session.start settings text).source.Overlooked s) :
    let source := (Session.start settings text).source
    (source.view s).isCpp = true ∧
      (source.view s).kind (source.view s).corePlace = .identifier ∧
      source.ScopedArguments (s.after ((source.view s).corePlace + 1)) := by
  rcases h with ⟨hcpp, hname, hscoped⟩ | ⟨hc, hcolons⟩ | ⟨-, hname, hqualified⟩
  · exact ⟨hcpp, hname, hscoped⟩
  · have hdialect : settings.dialect = .c := by
      cases hsettings : settings.dialect with
      | c => rfl
      | cpp => exact absurd (beq_eq_false_iff_ne.1 hc) (not_not_intro hsettings)
    have hkind (n : Nat) :
        ((Session.start settings text).source.view s).kind n ≠ .colonColon := by
      intro hcolon
      have hin : (((Session.start settings text).source.view s).kind n).inC = true :=
        (Session.ofC_start hdialect text).kinds _
      rw [hcolon] at hin
      cases hin
    rcases hcolons with hcolon | ⟨-, hcolon⟩
    · exact (hkind _ hcolon).elim
    · exact (hkind _ hcolon).elim
  · have hword := Session.namesAreWords_start settings text _ hname
    exact absurd hqualified (Bool.eq_false_iff.1 hword.isQualified_eq_false)

namespace TypeText

theorem hasScope_append (first rest : List Char) : hasScope (first ++ ':' :: ':' :: rest) = true := by
  induction first with
  | nil => rfl
  | cons c cs ih =>
    rw [List.cons_append, hasScope.eq_def]
    split
    · rfl
    · rename_i heq
      cases heq
      exact ih
    · rename_i heq
      cases heq

theorem isQualified_append (scope name : String) : isQualified (scope ++ "::" ++ name) = true := by
  rw [isQualified, String.toList_append, String.toList_append, List.append_assoc]
  exact hasScope_append ..

end TypeText

namespace Parse

variable {path : TypePath}

/-- Template arguments that cannot be read are no reason to give up. -/
theorem isFatal_of_run_argumentsFrom {start fuel : Nat} {inside : ArgumentNesting} {e : Failure}
    (hrun : (argumentsFrom start inside fuel).run source s = (.error e, t)) : e.isFatal = false := by
  induction fuel generalizing start inside s with
  | zero =>
    cases hrun
    rfl
  | succ fuel ih =>
    unfold argumentsFrom at hrun
    rw [run_bind_ok run_kind] at hrun
    cases hstep : inside.step ((source.view s).kind 0) with
    | fail =>
      rw [hstep] at hrun
      cases hrun
      rfl
    | close extra =>
      simp only [hstep, run_bind_ok (run_textSince _), run_bind_ok run_skip] at hrun
      cases hrun
    | cut =>
      simp only [hstep, run_bind_ok (run_textSince _), run_bind_ok run_skip,
        run_bind_ok run_position] at hrun
      obtain hrest | ⟨rest, u, -, hdone⟩ := of_run_bind_error hrun
      · exact ih hrest
      · cases hdone
    | take inside' =>
      simp only [hstep, run_bind_ok run_skip] at hrun
      exact ih hrun

theorem isFatal_of_run_templateArguments {e : Failure}
    (hrun : templateArguments.run source s = (.error e, t)) : e.isFatal = false := by
  unfold templateArguments skipOver require at hrun
  rw [bind_assoc, bind_assoc, run_bind_ok (run_check _)] at hrun
  split at hrun
  · rw [run_bind_ok run_advance, pure_bind, run_bind_ok run_position, run_bind_ok run_view] at hrun
    obtain hrest | ⟨texts, u, -, hdone⟩ := of_run_bind_error hrun
    · exact isFatal_of_run_argumentsFrom hrest
    · split at hdone <;> cases hdone
  · rw [run_bind_error (run_expected _)] at hrun
    cases hrun
    rfl

/-- A path that goes on has a scope. -/
theorem run_plainSegment_some (path : TypePath) (hcolons : (source.view s).kind 0 = .colonColon)
    (hname : (source.view s).kind 1 = .identifier) :
    ∃ path' t, (plainSegment path).run source s = (.ok (some path'), t) ∧
      TypeText.isQualified path'.plain = true := by
  unfold plainSegment
  rw [run_bind_ok (run_check _), run_bind_ok (run_checkAhead _ _), hcolons, hname,
    beq_self_eq_true, beq_self_eq_true, Bool.and_self, if_pos rfl, run_bind_ok run_skip,
    run_bind_ok run_advance]
  exact ⟨_, _, rfl, TypeText.isQualified_append ..⟩

theorem run_plainSegment_ok (path : TypePath) (s : ParseState) :
    ∃ r t, (plainSegment path).run source s = (.ok r, t) ∧
      ∀ path' ∈ r, TypeText.isQualified path'.plain = true := by
  by_cases h : (source.view s).kind 0 = .colonColon ∧ (source.view s).kind 1 = .identifier
  · obtain ⟨path', t, hrun, hqualified⟩ := run_plainSegment_some path h.1 h.2
    refine ⟨some path', t, hrun, ?_⟩
    rintro _ ⟨⟩
    exact hqualified
  · refine ⟨none, s, ?_, nofun⟩
    unfold plainSegment
    rw [run_bind_ok (run_check _), run_bind_ok (run_checkAhead _ _), if_neg (by simpa using h)]
    rfl

theorem run_typeSegment_ok (path : TypePath) (s : ParseState) :
    ∃ r t, (typeSegment path).run source s = (.ok r, t) ∧
      ∀ path' ∈ r, TypeText.isQualified path'.plain = true := by
  unfold typeSegment
  rw [run_bind_ok run_isCpp, run_bind_ok (run_check _)]
  split
  · rcases hrun : templateArguments.run source s with ⟨e | arguments, u⟩
    · have hattempt := run_speculate_error hrun
      rw [isFatal_of_run_templateArguments hrun] at hattempt
      rw [run_bind_ok hattempt]
      exact run_plainSegment_ok path _
    · rw [run_bind_ok (run_speculate_ok hrun)]
      exact run_plainSegment_ok path u
  · exact run_plainSegment_ok path s

/-- A name with template arguments and `::` after them is read as a path with a scope. -/
theorem run_typePath_scoped (hcpp : (source.view s).isCpp = true)
    (hname : (source.view s).kind 0 = .identifier) (hscoped : source.ScopedArguments (s.after 1)) :
    ∃ path t, typePath.run source s = (.ok path, t) ∧
      TypeText.isQualified path.plain = true := by
  obtain ⟨arguments, u, harguments, hcolons, hident⟩ := hscoped
  have hlt := (of_run_templateArguments harguments).1
  have hfirst : (Parse.name "in type name").run source s =
      (.ok ((source.view s).token 0).text, s.after 1) := by
    unfold Parse.name
    rw [run_bind_ok (run_require_of_kind hname (by decide))]
    rfl
  have hsegment (path : TypePath) : ∃ path' v,
      (typeSegment path).run source (s.after 1) = (.ok (some path'), v) ∧
        TypeText.isQualified path'.plain = true := by
    obtain ⟨path', v, hrun, hqualified⟩ := run_plainSegment_some path hcolons hident
    refine ⟨path', v, ?_, hqualified⟩
    unfold typeSegment
    rw [run_bind_ok run_isCpp, run_bind_ok (run_check _),
      show (source.view (s.after 1)).isCpp = true from hcpp, hlt, beq_self_eq_true, Bool.and_self,
      if_pos rfl, run_bind_ok (run_speculate_ok harguments)]
    exact hrun
  unfold typePath
  rw [run_bind_ok (run_globalScope_of_name hname), run_bind_ok hfirst, iterate,
    run_bind_ok run_view, iterateFor]
  obtain ⟨path', v, hrun, hqualified⟩ := hsegment _
  rw [run_bind_ok hrun]
  exact run_iterateFor_ok run_typeSegment_ok hqualified _

/-- A name with template arguments and `::` after them is read as a type, whether or not it is known. -/
theorem typeName_of_scopedArguments (hcpp : (source.view s).isCpp = true)
    (hname : (source.view s).kind (source.view s).corePlace = .identifier)
    (hscoped : source.ScopedArguments (s.after ((source.view s).corePlace + 1))) :
    ∃ text t, typeName.run source s = (.ok text, t) := by
  obtain ⟨path, t, hpath, hqualified⟩ : ∃ path t,
      typePath.run source (s.after (source.view s).corePlace) = (.ok path, t) ∧
        TypeText.isQualified path.plain = true := by
    refine run_typePath_scoped hcpp hname ?_
    rwa [ParseState.after_after]
  have haccepts : (source.view t).accepts path = true := by
    unfold View.accepts
    rw [hqualified, show (source.view t).isCpp = true from hcpp, Bool.and_self, Bool.or_true]
  have hnamed : namedType.run source (s.after (source.view s).corePlace) = (.ok (), t) := by
    unfold namedType
    rw [run_bind_ok hpath, run_bind_ok run_view, haccepts]
    rfl
  have hbare : bareCore.run source (s.after (source.view s).corePlace) = (.ok (), t) := by
    unfold bareCore
    rw [run_bind_ok run_kind, show (source.view (s.after (source.view s).corePlace)).kind 0 =
      .identifier from hname]
    exact hnamed
  have hcore : ∃ u, typeCore.run source s = (.ok (), u) := by
    unfold typeCore
    rw [run_bind_ok (run_skipWhile rfl)]
    exact ⟨_, (run_bind_ok hbare).trans (run_skipWhile rfl)⟩
  obtain ⟨u, hcore⟩ := hcore
  unfold typeName
  rw [run_bind_ok run_position, run_bind_ok hcore, run_bind_ok (run_skipWhile rfl)]
  exact ⟨_, _, run_textSince _⟩

/-- An unknown name with template arguments and `::` after them is a type that is overlooked. -/
theorem scopedArguments_overlooked (hcpp : (source.view s).isCpp = true)
    (hname : (source.view s).kind (source.view s).corePlace = .identifier)
    (hscoped : source.ScopedArguments (s.after ((source.view s).corePlace + 1)))
    (hlenient : s.lenient = false)
    (hunknown : (source.view s).isKnown
      ((source.view s).token (source.view s).corePlace).text = false) :
    (source.view s).startsType = false ∧ ∃ text t, typeName.run source s = (.ok text, t) := by
  refine ⟨?_, typeName_of_scopedArguments hcpp hname hscoped⟩
  obtain ⟨arguments, t, harguments, -⟩ := hscoped
  have hlt : (source.view s).kind ((source.view s).corePlace + 1) = .lt :=
    (of_run_templateArguments harguments).1
  rw [View.startsType_of_name hname, hunknown, hlt,
    show (source.view s).lenient = false from hlenient]
  exact Bool.and_false _

end Parse

end CTree
