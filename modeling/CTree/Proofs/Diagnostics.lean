import CTree.Proofs.Cut
import CTree.Proofs.Tree.Program

/-!
# The list of diagnostics

The lexical errors of a text come first, and whatever is reported in any number of passes comes after
them. Each record of a pass tells of one token: its position is where the token begins, and if it
says what was found, that is the token.
-/

namespace CTree

open Parse

/-! ### One record -/

/-- A diagnostic is about a token of a text. It names what was expected and what was found where its
message does so, and nowhere else; what was found is the token. -/
structure Diagnostic.IsAbout (text : List Char) (t : Token) (d : Diagnostic) : Prop where
  stage : d.stage = .grammatical
  position : d.position = t.offset
  place : d.place = Text.place text d.position
  wording :
    (∃ what, d.message = "Expected " ++ what ++ ", found " ++ t.describe ∧
      d.expected? = some what ∧ d.found? = some t.describe) ∨
    (∀ what found, d.message ≠ "Expected " ++ what ++ ", found " ++ found) ∧
      d.expected? = none ∧ d.found? = none

/-- Only an expectation is worded as one. -/
theorem Cause.not_expected {t : Token} {cause : Cause} (h : cause.TellsOf t)
    (hnone : cause.found? = none) : ¬ "Expected ".toList <+: cause.message.toList := by
  cases cause with
  | expected => cases hnone
  | unexpected => exact h
  | tooDeep limit =>
    have hmessage : (Cause.tooDeep limit).message =
        "Maximum nesting depth of " ++ (toString limit ++ " exceeded") := String.append_assoc ..
    rw [hmessage]
    exact not_expected_append rfl (by decide)
  | tooMany limit loop =>
    have hmessage : (Cause.tooMany limit loop).message =
        "Iteration limit of " ++ (toString limit ++ (" exceeded while parsing " ++ loop.describe)) := by
      rw [← String.append_assoc, ← String.append_assoc]
      rfl
    rw [hmessage]
    exact not_expected_append rfl (by decide)
  | invalidLiteral literal =>
    have hmessage : (Cause.invalidLiteral literal).message =
        "Invalid literal '" ++ (literal ++ "'") := String.append_assoc ..
    rw [hmessage]
    exact not_expected_append rfl (by decide)

theorem Cause.message_ne {t : Token} {cause : Cause} (h : cause.TellsOf t)
    (hnone : cause.found? = none) (what found : String) :
    cause.message ≠ "Expected " ++ what ++ ", found " ++ found := by
  intro hmessage
  refine not_expected h hnone ?_
  rw [hmessage, String.append_assoc, String.append_assoc, String.toList_append]
  exact List.prefix_append _ _

/-- What is reported is about a token of the source. -/
theorem Source.Reports.isAbout {source : Source} {d : Diagnostic} (h : source.Reports d) :
    ∃ t, source.HasToken t ∧ d.IsAbout source.text t := by
  obtain ⟨e, ⟨t, htoken, hoffset, htells⟩, rfl⟩ := h
  refine ⟨t, htoken, rfl, hoffset, rfl, ?_⟩
  show (∃ what, e.cause.message = _ ∧ e.cause.expected? = _ ∧ e.cause.found? = _) ∨
    (∀ what found, e.cause.message ≠ _) ∧ e.cause.expected? = _ ∧ e.cause.found? = _
  rcases hcause : e.cause with ⟨what, found⟩ | _ | _ | _ | _
  · rw [hcause] at htells
    obtain rfl : found = t.describe := htells
    exact .inl ⟨what, rfl, rfl, rfl⟩
  all_goals
    rw [hcause] at htells
    exact .inr ⟨Cause.message_ne htells rfl, rfl, rfl⟩

/-! ### The tokens of a text -/

section Tokens

variable {dialect : Dialect} {text : List Char}

/-- No token begins past the end of its text. -/
theorem offset_le_byteLength {t : Token} (h : t ∈ (tokenize dialect text).tokens) :
    t.offset ≤ Text.byteLength text := by
  have hcut := cut_tokenize dialect text
  obtain ⟨ts, htokens, -⟩ := hcut.tokens_eq
  have hpairs := hcut.tokens_pairwise
  rw [Nat.zero_add] at htokens
  rw [htokens] at h hpairs
  rcases List.mem_append.1 h with h | h
  · exact Nat.le_of_lt ((List.pairwise_append.1 hpairs).2.2 t h _ (List.mem_singleton_self _)).1
  · obtain rfl := List.mem_singleton.1 h
    exact Nat.le_refl _

/-- What stands in a stream is one of the tokens that it was made of, if they end with the end. -/
theorem TokenStream.get_ofList_append_mem {ts : List Token} {t : Token} (h : t.kind = .eof)
    (i : Nat) : (ofList (ts ++ [t])).get i ∈ ts ++ [t] := by
  have hstream : ofList (ts ++ [t]) = ⟨ts.toArray, t, h⟩ := by
    simp [ofList, h]
  rw [hstream]
  unfold get
  split
  · exact List.mem_append_left _ (List.getElem_mem _)
  · exact List.mem_append_right _ (List.mem_singleton_self t)

/-- A session reads the tokens of its text. -/
theorem Session.hasToken_start {settings : Settings} {t : Token}
    (h : (start settings text).source.HasToken t) :
    t ∈ (tokenize settings.dialect text).tokens := by
  obtain ⟨i, rfl⟩ := h
  exact TokenStream.get_ofList_append_mem rfl i

end Tokens

/-! ### Passes -/

/-- A parser adds its own diagnostics to those from before it. They tell of tokens, and they are the
same whatever stood before them, and so is all else that the parser does. -/
theorem Accounted.own {α : Type} {source : Source} {p : Parse α} {s t : ParseState}
    {r : Except Failure α} (h : Accounted source anywhere p) (hrun : p.run source s = (r, t)) :
    ∃ own, t.diagnostics = s.diagnostics ++ own ∧ (∀ d ∈ own, source.Reports d) ∧
      ∀ ds, p.run source { s with diagnostics := ds } =
        (r, { t with diagnostics := ds ++ own }) := by
  have hrun' : ∀ ds, p.run source { s with diagnostics := ds } =
      ((p.run source { s with diagnostics := #[] }).1,
        (p.run source { s with diagnostics := #[] }).2.preceded ds) := by
    intro ds
    rw [← h.oblivious trivial ds]
    simp [ParseState.preceded]
  rcases hclear : p.run source { s with diagnostics := #[] } with ⟨r', u⟩
  rw [hclear] at hrun'
  obtain ⟨rfl, rfl⟩ := Prod.mk.inj (hrun.symm.trans (hrun' s.diagnostics))
  refine ⟨u.diagnostics, rfl, fun d hd => ?_, hrun'⟩
  have hreports := h.reports (s := { s with diagnostics := #[] }) (d := d) trivial
  rw [hclear] at hreports
  exact (hreports hd).elim (fun hd => by simp at hd) id

namespace Session

variable {settings : Settings} {text : List Char}

/-- The grammar of a session is accounted for. -/
theorem accounted_items (source : Source) (depth : Nat) (inNamespace : Bool) :
    Accounted source anywhere ((Grammar.ofDepth depth).items inNamespace) :=
  ((Grammar.ofDepth_framed source depth).items (k := 0) inNamespace).toAccounted

theorem appends_afterPasses (s : Session) (names : List String) :
    ∃ ds, (s.afterPasses names).state.diagnostics = s.state.diagnostics ++ ds ∧
      ∀ d ∈ ds, s.source.Reports d := by
  induction names generalizing s with
  | nil => exact ⟨#[], by simp [afterPasses], by simp⟩
  | cons name names ih =>
    obtain ⟨first, hfirst, hreports, -⟩ :=
      (accounted_items s.source s.source.settings.maxDepth false).own rfl
    obtain ⟨rest, hrest, hreports'⟩ := ih (s.parse name).2
    rw [source_parse] at hreports'
    refine ⟨first ++ rest, ?_, fun d hd => ?_⟩
    · have hparse : (s.parse name).2.state.diagnostics = s.state.diagnostics ++ first := by
        rw [parse_eq_run]
        exact hfirst
      rw [afterPasses, hrest, hparse, Array.append_assoc]
    · exact (Array.mem_append.1 hd).elim (hreports d) (hreports' d)

end Session

/-! ### The whole list -/

/-- The two parts of a report are the list that it is made of, if the lexical records come first. -/
theorem Report.ofList_append {lexical grammatical : List Diagnostic}
    (hlexical : ∀ d ∈ lexical, d.stage = .lexical)
    (hgrammatical : ∀ d ∈ grammatical, d.stage = .grammatical) :
    Report.ofList (lexical ++ grammatical) = ⟨lexical, grammatical⟩ := by
  have hall : lexical.filter (·.stage == .lexical) = lexical :=
    List.filter_eq_self.2 fun d hd => by simp [hlexical d hd]
  have hnone : lexical.filter (·.stage != .lexical) = [] :=
    List.filter_eq_nil_iff.2 fun d hd => by simp [hlexical d hd]
  have hnone' : grammatical.filter (·.stage == .lexical) = [] :=
    List.filter_eq_nil_iff.2 fun d hd => by simp [hgrammatical d hd]
  have hall' : grammatical.filter (·.stage != .lexical) = grammatical :=
    List.filter_eq_self.2 fun d hd => by simp [hgrammatical d hd]
  simp only [Report.ofList, List.filter_append, hall, hnone, hnone', hall', List.append_nil,
    List.nil_append]

/-- After any number of passes, the diagnostics are the lexical errors, all of them, in order and at
increasing positions, and after them what the passes reported. Each of these records is about a
token of the text. So the two parts of a report are the whole list, and its total is their
number. -/
theorem diagnostics_afterPasses (settings : Settings) (text : List Char) (names : List String) :
    let tokens := tokenize settings.dialect text
    let lexical := Diagnostic.ofLexErrors text tokens.errors
    let all := ((Session.start settings text).afterPasses names).state.diagnostics.toList
    (∃ grammatical, all = lexical ++ grammatical ∧
      (∀ d ∈ lexical, d.stage = .lexical ∧ d.place = Text.place text d.position) ∧
      lexical.Pairwise (fun d d' => d.position < d'.position) ∧
      ∀ d ∈ grammatical, ∃ t ∈ tokens.tokens, t.offset ≤ Text.byteLength text ∧
        d.IsAbout text t) ∧
    (Report.ofList all).lexical ++ (Report.ofList all).grammatical = all ∧
    (Report.ofList all).total = all.length := by
  intro tokens lexical all
  obtain ⟨ds, hds, hreports⟩ := Session.appends_afterPasses (Session.start settings text) names
  have hall : all = lexical ++ ds.toList := by
    show ((Session.start settings text).afterPasses names).state.diagnostics.toList = _
    rw [hds, Array.toList_append]
    rfl
  have hlexical : ∀ d ∈ lexical, d.stage = .lexical ∧ d.place = Text.place text d.position := by
    intro d hd
    obtain ⟨e, -, rfl⟩ := List.mem_map.1 hd
    exact ⟨rfl, rfl⟩
  have hordered : lexical.Pairwise fun d d' => d.position < d'.position :=
    List.pairwise_map.2 (cut_tokenize settings.dialect text).errors_pairwise
  have habout : ∀ d ∈ ds.toList, ∃ t ∈ tokens.tokens, t.offset ≤ Text.byteLength text ∧
      d.IsAbout text t := by
    intro d hd
    obtain ⟨t, htoken, hd⟩ := (hreports d (Array.mem_toList_iff.1 hd)).isAbout
    have hmem := Session.hasToken_start htoken
    exact ⟨t, hmem, offset_le_byteLength hmem, hd⟩
  have hreport : Report.ofList all = ⟨lexical, ds.toList⟩ := by
    rw [hall]
    refine Report.ofList_append (fun d hd => (hlexical d hd).1) fun d hd => ?_
    obtain ⟨t, -, -, hd⟩ := habout d hd
    exact hd.stage
  refine ⟨⟨ds.toList, hall, hlexical, hordered, habout⟩, ?_, ?_⟩
  · rw [hreport, hall]
  · rw [hreport, hall, List.length_append]
    rfl

end CTree
