import CTree.Parse.Declaration
import CTree.Proofs.Frame

/-!
# Parsers that learn no type names

Going back after a failed attempt keeps the type names learnt in it. A declaration is tried by
reading what stands in front of it: its specifiers and its type, or the path to a constructor. No
such parser makes a type name known, so an attempt that fails leaves nothing behind.
-/

namespace CTree

namespace Parse

variable {α β σ : Type} {source : Source} {p : Parse α} {f : α → Parse β}

/-- Whatever comes of a parser, the known type names are those from before it. -/
def KeepsNames (source : Source) (p : Parse α) : Prop :=
  ∀ s, (p.run source s).2.cursor.known = s.cursor.known

namespace KeepsNames

/-! ### Rules -/

/-- What only looks, or fails at once, keeps the whole state. -/
theorem of_state (h : ∀ s, (p.run source s).2 = s) : KeepsNames source p :=
  fun s => by rw [h s]

protected theorem pure (x : α) : KeepsNames source (pure x) :=
  of_state fun _ => rfl

theorem expected (what : String) : KeepsNames source (expected what : Parse α) :=
  of_state fun _ => rfl

theorem unexpected (message : String) : KeepsNames source (unexpected message : Parse α) :=
  of_state fun _ => rfl

theorem bind (hp : KeepsNames source p) (hf : ∀ x, KeepsNames source (f x)) :
    KeepsNames source (p >>= f) := by
  intro s
  have hs := hp s
  rcases h : p.run source s with ⟨e | x, t⟩
  · rw [h] at hs
    rwa [run_bind_error h]
  · rw [h] at hs
    rw [run_bind_ok h]
    exact (hf x t).trans hs

/-- A look whose answer only decides what is done next. -/
theorem look (h : ∀ s, (p.run source s).2 = s) (hf : ∀ x, KeepsNames source (f x)) :
    KeepsNames source (p >>= f) :=
  bind (of_state h) hf

theorem speculate (hp : KeepsNames source p) : KeepsNames source (speculate p) := by
  intro s
  have hs := hp s
  rcases h : p.run source s with ⟨e | x, t⟩
  · rw [h] at hs
    rwa [run_speculate_error h]
  · rw [h] at hs
    rwa [run_speculate_ok h]

theorem iterate {step : σ → Parse (Option σ)} (h : ∀ x, KeepsNames source (step x)) (x : σ) :
    KeepsNames source (iterate step x) := by
  refine look (fun _ => rfl) fun v => ?_
  generalize v.remaining + 1 = fuel
  induction fuel generalizing x with
  | zero => exact .pure x
  | succ fuel ih =>
    refine (h x).bind fun y => ?_
    cases y with
    | none => exact .pure x
    | some y => exact ih y

/-! ### Tokens -/

theorem advance : KeepsNames source advance := by
  intro s
  rw [run_advance]
  show (s.cursor.advance source.stream).known = s.cursor.known
  unfold Cursor.advance
  split <;> rfl

theorem skip : KeepsNames source skip :=
  advance.bind fun _ => .pure _

theorem accept (k : TokenKind) : KeepsNames source (accept k) := by
  refine look (fun _ => rfl) fun here => ?_
  cases here with
  | true => exact skip.bind fun _ => .pure _
  | false => exact .pure _

theorem require (k : TokenKind) (place : String) : KeepsNames source (require k place) := by
  refine look (fun _ => rfl) fun here => ?_
  cases here with
  | true => exact advance
  | false => exact expected _

theorem skipOver (k : TokenKind) (place : String) : KeepsNames source (skipOver k place) :=
  (require k place).bind fun _ => .pure _

theorem name (place : String) : KeepsNames source (name place) :=
  (require .identifier place).bind fun _ => .pure _

theorem skipWhile (c : TokenKind → Bool) : KeepsNames source (skipWhile c) := by
  refine iterate (fun _ => look (fun _ => rfl) fun k => ?_) ()
  split
  · exact skip.bind fun _ => .pure _
  · exact .pure _

theorem skipGroup (opening closing : TokenKind) (fuel depth : Nat) :
    KeepsNames source (skipGroup opening closing fuel depth) := by
  induction fuel generalizing depth with
  | zero => exact of_state fun _ => rfl
  | succ fuel ih =>
    refine look (fun _ => rfl) fun k => ?_
    split
    · exact expected _
    · refine skip.bind fun _ => ?_
      split
      · exact ih _
      · split
        · split
          · exact .pure _
          · exact ih _
        · exact ih _

theorem skipBalanced (opening closing : TokenKind) :
    KeepsNames source (skipBalanced opening closing) :=
  (skipOver opening "").bind fun _ => look (fun _ => rfl) fun _ => skipGroup _ _ _ _

/-! ### Types -/

theorem specifiers : KeepsNames source specifiers := by
  unfold Parse.specifiers
  refine iterate (fun s => look (fun _ => rfl) fun v => ?_) _
  split
  · exact skip.bind fun _ => .pure _
  · exact .pure _

theorem argumentsFrom (start : Nat) (inside : ArgumentNesting) (fuel : Nat) :
    KeepsNames source (argumentsFrom start inside fuel) := by
  induction fuel generalizing start inside with
  | zero => exact expected _
  | succ fuel ih =>
    refine look (fun _ => rfl) fun k => ?_
    split
    · exact expected _
    · exact look (fun _ => rfl) fun text => skip.bind fun _ => .pure _
    · refine look (fun _ => rfl) fun text => skip.bind fun _ => look (fun _ => rfl) fun i => ?_
      exact (ih i inside).bind fun rest => .pure _
    · exact skip.bind fun _ => ih start _

theorem templateArguments : KeepsNames source templateArguments := by
  refine (skipOver .lt _).bind fun _ => look (fun _ => rfl) fun i => look (fun _ => rfl) fun v => ?_
  refine (argumentsFrom i {} _).bind fun arguments => ?_
  split
  · exact .pure _
  · exact .pure _

theorem plainSegment (path : TypePath) : KeepsNames source (plainSegment path) := by
  refine look (fun _ => rfl) fun colons => look (fun _ => rfl) fun named => ?_
  split
  · exact skip.bind fun _ => advance.bind fun t => .pure _
  · exact .pure _

theorem typeSegment (path : TypePath) : KeepsNames source (typeSegment path) := by
  refine look (fun _ => rfl) fun cpp => look (fun _ => rfl) fun angle => ?_
  split
  · exact templateArguments.speculate.bind fun _ => plainSegment path
  · exact plainSegment path

theorem globalScope : KeepsNames source globalScope := by
  refine (accept .colonColon).bind fun global => ?_
  split
  · exact .pure _
  · exact .pure _

theorem typePath : KeepsNames source typePath :=
  globalScope.bind fun _ => (name _).bind fun _ => iterate typeSegment _

theorem namedType : KeepsNames source namedType := by
  refine typePath.bind fun path => look (fun _ => rfl) fun v => ?_
  split
  · exact .pure _
  · exact unexpected _

theorem bareCore : KeepsNames source bareCore := by
  refine look (fun _ => rfl) fun k => ?_
  split
  case h_1 | h_2 | h_3 | h_4 | h_5 => exact skip.bind fun _ => typePath.bind fun _ => .pure _
  · exact skip.bind fun _ => skipBalanced _ _
  · exact namedType
  · exact namedType
  · split
    · exact skipWhile _
    · exact expected _

theorem typeCore : KeepsNames source typeCore :=
  (skipWhile _).bind fun _ => bareCore.bind fun _ => skipWhile _

theorem typeName : KeepsNames source typeName := by
  unfold Parse.typeName
  refine look (fun _ => rfl) fun start => typeCore.bind fun _ => ?_
  exact (skipWhile _).bind fun _ => of_state fun s => by rw [run_textSince]

/-! ### What stands in front of a declaration -/

theorem formedType : KeepsNames source formedType := by
  refine typeName.bind fun type => look (fun _ => rfl) fun form? => ?_
  split
  · exact .pure _
  · exact unexpected _

theorem declarationHead : KeepsNames source declarationHead := by
  refine specifiers.bind fun specs => look (fun _ => rfl) fun v => ?_
  split
  · exact formedType.bind fun _ => .pure _
  · exact (expected _).bind fun _ => formedType.bind fun _ => .pure _

theorem specialSegment (path : SpecialPath) : KeepsNames source (specialSegment path) := by
  unfold Parse.specialSegment
  split
  · exact .pure _
  · refine (accept .colonColon).bind fun colons => ?_
    split
    · refine (accept .tilde).bind fun tilde => ?_
      split
      · exact (name _).bind fun _ => .pure _
      · exact (name _).bind fun _ => .pure _
    · exact .pure _

theorem specialPath : KeepsNames source specialPath := by
  refine specifiers.bind fun _ => (name _).bind fun first => ?_
  refine (iterate specialSegment _).bind fun path => look (fun _ => rfl) fun paren => ?_
  split
  · exact .pure _
  · exact unexpected _

end KeepsNames

end Parse

end CTree
