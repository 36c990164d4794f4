import CTree.Outcome
import CTree.Proofs.Lockstep.Depth

/-!
# Ceilings that are never reached

The ceilings of the settings keep a parse from running away. They are transparent as soon as each of
them is four times the number of tokens: the outcome is then the same whatever they are, and no
diagnostic speaks of a ceiling. Three constructs are opened for each token at most, which leaves one
quarter of the ceiling on depth to spare.
-/

namespace CTree

/-- All four ceilings are at least the given number. -/
structure Settings.CeilingsFrom (settings : Settings) (n : Nat) : Prop where
  depth : n ≤ settings.maxDepth
  iterations : n ≤ settings.maxIterations
  statements : n ≤ settings.maxStatements
  lookahead : n ≤ settings.maxLookahead

/-! ### The stream of a session -/

theorem TokenStream.size_ofList {tokens : List Token} {t : Token} (h : t.kind = .eof) :
    (TokenStream.ofList (tokens ++ [t])).size = (tokens ++ [t]).length := by
  simp [TokenStream.ofList, TokenStream.size, h]

namespace Session

variable {settings settings' : Settings} {text : List Char}

/-- The stream of a session has the tokens of its text, `eof` included. -/
theorem size_start (settings : Settings) (text : List Char) :
    (start settings text).source.stream.size = (tokenize settings.dialect text).tokens.length :=
  TokenStream.size_ofList rfl

theorem twin_start (h : settings'.dialect = settings.dialect) :
    (start settings text).source.Twin (start settings' text).source := by
  refine ⟨rfl, ?_, h⟩
  simp only [start, h]

theorem state_start (h : settings'.dialect = settings.dialect) :
    (start settings' text).state = (start settings text).state := by
  simp only [start, h]

theorem ample_start
    (h : settings.CeilingsFrom (4 * (tokenize settings.dialect text).tokens.length)) :
    (start settings text).source.Ample := by
  rw [← size_start] at h
  exact ⟨h.depth, h.iterations, h.statements, h.lookahead⟩

/-- Lexical errors say nothing of ceilings. -/
theorem not_ceiling_start {d : Diagnostic} (h : d ∈ (start settings text).state.diagnostics) :
    ¬ IsCeilingMessage d.message := by
  have hmem : d ∈ Diagnostic.ofLexErrors text (tokenize settings.dialect text).errors :=
    List.mem_toArray.1 h
  obtain ⟨e, -, rfl⟩ := List.mem_map.1 hmem
  show ¬ IsCeilingMessage e.fault.message
  cases e.fault with
  | unknownCharacter c =>
    show ¬ IsCeilingMessage ("Unknown character: '" ++ c.toString ++ "'")
    rw [String.append_assoc]
    exact not_ceiling_append rfl (by decide) (by decide)
  | unterminatedString => exact not_ceiling_of_head rfl (by decide) (by decide)
  | unterminatedCharacter => exact not_ceiling_of_head rfl (by decide) (by decide)
  | unterminatedComment => exact not_ceiling_of_head rfl (by decide) (by decide)

/-- At the start of a session nothing is open, and three constructs may be opened. -/
theorem roomy_start (hdialect : settings'.dialect = settings.dialect)
    (h : settings.CeilingsFrom (4 * (tokenize settings.dialect text).tokens.length))
    (h' : settings'.CeilingsFrom (4 * (tokenize settings.dialect text).tokens.length)) :
    Roomy (start settings text).source (start settings' text).source
      (3 * (start settings text).source.stream.size) 3 (start settings text).state where
  twin := twin_start hdialect
  ample := ample_start h
  ample' := ample_start (by rwa [hdialect])
  inside := Nat.zero_le _
  calm _ hd := not_ceiling_start hd
  room := Nat.le_refl _
  fuel := Nat.le_refl _

end Session

end CTree
