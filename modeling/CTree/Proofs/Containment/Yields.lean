import CTree.Proofs.Cut
import CTree.Proofs.Yields

/-!
# What parsers give in C

Most kinds of tokens that only C++ has decide by themselves which rule of the grammar is tried, and none
of them stands in a source of C: the lemmas at the end drop what such a token would begin.
-/

namespace CTree

open Parse

/-! ### The kinds of C -/

/-- The kinds of the tokens that a text of C is cut into. -/
def TokenKind.inC (k : TokenKind) : Bool :=
  (Rule.tableC.map (·.kind)).contains k || k == .stringLiteral || k == .charLiteral || k == .eof

/-- A source that is read as C, with the tokens of C. -/
structure Source.OfC (source : Source) : Prop where
  dialect : source.settings.dialect = .c
  kinds : ∀ i, (source.stream.get i).kind.inC = true

theorem PieceAt.inC {w rest : List Char} {kind : TokenKind} {fault? : Option LexFault}
    (h : PieceAt .c w rest (some kind) fault?) : kind.inC = true := by
  cases h with
  | literal hquote => cases hquote <;> decide
  | openLiteral hquote => cases hquote <;> decide
  | lexeme _ hlexeme =>
    obtain ⟨rule, hmem, rfl, -⟩ := Rule.mem_of_firstLexeme hlexeme
    have hcontains : (Rule.tableC.map (·.kind)).contains rule.kind = true :=
      List.contains_iff_mem.2 (List.mem_map_of_mem hmem)
    rw [TokenKind.inC, hcontains]
    rfl

theorem Cut.inC {start : Nat} {text : List Char} {tokens : List Token} {errors : List LexError}
    (h : Cut .c start text tokens errors) : ∀ t ∈ tokens, t.kind.inC = true := by
  induction h with
  | done =>
    intro t ht
    obtain rfl := List.mem_singleton.1 ht
    rfl
  | piece hpiece _ ih =>
    intro t ht
    rcases List.mem_append.1 ht with ht | ht
    · obtain ⟨kind, rfl, rfl⟩ := Option.map_eq_some_iff.1 (Option.mem_toList.1 ht)
      exact hpiece.inC
    · exact ih t ht

/-- What a session in C starts with is a source of C. -/
theorem Session.ofC_start {settings : Settings} (h : settings.dialect = .c) (text : List Char) :
    (start settings text).source.OfC := by
  refine ⟨h, fun i => ?_⟩
  rcases TokenStream.get_ofList_mem (tokenize settings.dialect text).tokens i with hend | hmem
  · rw [show ((start settings text).source.stream.get i).kind = .eof from hend]
    rfl
  · rw [h] at hmem
    exact (cut_tokenize .c text).inC _ (h ▸ hmem)

/-! ### Looking at a source of C -/

namespace Yields

variable {β : Type} {source : Source} {m' : β → Prop}

section OfC

variable (hc : source.OfC)
include hc

theorem isCpp {f : Bool → Parse β} (hf : Yields source m' (f false)) :
    Yields source m' (isCpp >>= f) := by
  intro s y t hrun
  have hfalse : (source.view s).isCpp = false := by
    show (source.settings.dialect == .cpp) = false
    rw [hc.dialect]
    rfl
  rw [run_bind_ok run_isCpp, hfalse] at hrun
  exact hf s y t hrun

/-- The current token has one of the kinds of C. -/
theorem kind {f : TokenKind → Parse β} (hf : ∀ k, k.inC = true → Yields source m' (f k)) :
    Yields source m' (kind >>= f) := by
  intro s y t hrun
  rw [run_bind_ok run_kind] at hrun
  exact hf _ (hc.kinds _) s y t hrun

theorem kindAhead {n : Nat} {f : TokenKind → Parse β}
    (hf : ∀ k, k.inC = true → Yields source m' (f k)) : Yields source m' (kindAhead n >>= f) := by
  intro s y t hrun
  rw [run_bind_ok (run_kindAhead n)] at hrun
  exact hf _ (hc.kinds _) s y t hrun

theorem advance {f : Token → Parse β} (hf : ∀ t, t.kind.inC = true → Yields source m' (f t)) :
    Yields source m' (advance >>= f) := by
  intro s y t hrun
  rw [run_bind_ok run_advance] at hrun
  exact hf _ (hc.kinds _) _ y t hrun

/-- A token that only C++ has does not come next. -/
theorem check {k : TokenKind} (hk : k.inC = false) {f : Bool → Parse β}
    (hf : Yields source m' (f false)) : Yields source m' (check k >>= f) := by
  intro s y t hrun
  have hne : ((source.view s).kind 0 == k) = false := by
    refine beq_eq_false_iff_ne.2 fun heq => ?_
    have hin : ((source.view s).kind 0).inC = true := hc.kinds _
    rw [heq, hk] at hin
    cases hin
  rw [run_bind_ok (run_check _), hne] at hrun
  exact hf s y t hrun

theorem accept {k : TokenKind} (hk : k.inC = false) {f : Bool → Parse β}
    (hf : Yields source m' (f false)) : Yields source m' (accept k >>= f) := by
  have haccept : Yields source (· = false) (Parse.accept k) := by
    unfold Parse.accept
    exact check hc hk (.pure rfl)
  refine haccept.bind fun x hx => ?_
  rw [hx]
  exact hf

/-- What begins with a token that only C++ has gives nothing. -/
theorem skipOver {k : TokenKind} (hk : k.inC = false) {place : String} {f : Unit → Parse β} :
    Yields source m' (skipOver k place >>= f) := by
  have hskip : Yields source (fun _ => False) (Parse.skipOver k place) := by
    unfold Parse.skipOver Parse.require
    refine Yields.bind (m := fun _ => False) ?_ fun _ h => h.elim
    exact check hc hk (.expected _)
  exact hskip.bind fun _ h => h.elim

end OfC

end Yields

end CTree
