import CTree.Proofs.Cut
import CTree.Proofs.Printing.Roundtrip

/-!
# Texts without lexical faults

`CleanCut` says of a text, lexeme by lexeme, which tokens it is cut into. The texts here are families with a
number in them, so that their tokens are found by induction on that number.
-/

namespace CTree

/-- From the position `start` on, the text is cut into the tokens, and nothing is wrong with it. -/
inductive CleanCut (dialect : Dialect) : Nat → List Char → List Token → Prop
  | done {start} : CleanCut dialect start [] []
  | blank {start c cs ts} : Text.isBlank c = true → CleanCut dialect (start + c.utf8Size) cs ts →
      CleanCut dialect start (c :: cs) ts
  | lexeme {start c cs rest kind ts} : firstPiece dialect c (cs ++ rest) = (.lexeme kind, cs.length) →
      CleanCut dialect (start + Text.byteLength (c :: cs)) rest ts →
      CleanCut dialect start (c :: (cs ++ rest)) (⟨kind, String.ofList (c :: cs), start⟩ :: ts)

namespace CleanCut

variable {dialect : Dialect} {start n : Nat} {text rest : List Char} {ts : List Token}

/-! ### Tokens of a text -/

theorem pieces_eq (h : CleanCut dialect start text ts) :
    ((Piece.locate start (pieces dialect text)).filterMap fun (offset, p) => p.token? offset) = ts ∧
      ((Piece.locate start (pieces dialect text)).filterMap fun (offset, p) => p.error? offset) = [] := by
  induction h with
  | done =>
    rw [pieces]
    exact ⟨rfl, rfl⟩
  | @blank start c cs ts hblank _ ih =>
    have hfirst : firstPiece dialect c cs = (.blank, 0) := if_pos hblank
    rw [pieces_cons hfirst, Piece.filterMap_locate_cons fun offset p => p.token? offset,
      Piece.filterMap_locate_cons fun offset p => p.error? offset]
    exact ih
  | @lexeme start c cs rest kind ts hfirst _ ih =>
    rw [pieces_cons hfirst, List.take_left, List.drop_left,
      Piece.filterMap_locate_cons fun offset p => p.token? offset,
      Piece.filterMap_locate_cons fun offset p => p.error? offset, ih.1, ih.2]
    exact ⟨rfl, rfl⟩

theorem tokenize_eq (h : CleanCut dialect 0 text ts) :
    tokenize dialect text = ⟨ts ++ [⟨.eof, "", Text.byteLength text⟩], []⟩ := by
  rw [tokenize, h.pieces_eq.1, h.pieces_eq.2]

section Session

variable {settings : Settings} (h : CleanCut settings.dialect 0 text ts)

include h

theorem body_eq : (Session.start settings text).source.stream.body.toList = ts := by
  show (TokenStream.ofList (tokenize settings.dialect text).tokens).body.toList = ts
  rw [h.tokenize_eq, TokenStream.body_ofList rfl, List.dropLast_concat]

/-- Nothing is reported before the text is read. -/
theorem state_eq : (Session.start settings text).state = {} := by
  simp only [Session.start, h.tokenize_eq, Diagnostic.ofLexErrors, List.map_nil]

theorem sees : (Session.start settings text).source.Sees 0 (ts.map Token.lexeme) :=
  @Source.sees_of_map _ _ [] (congrArg (List.map Token.lexeme) h.body_eq)

theorem kindAt_length : (Session.start settings text).source.kindAt ts.length = .eof := by
  have hend := Source.kindAt_of_map (congrArg (List.map Token.lexeme) h.body_eq)
  rwa [List.length_map] at hend

/-- What comes of the session, by what comes of its items from the very beginning. -/
theorem parse_eq {d : Nat} {r : Except Failure (List Stmt) × ParseState} (hd : settings.maxDepth = d)
    (hrun : ((Grammar.ofDepth d).items false).run (Session.start settings text).source {} = r)
    (name : String) : (Session.start settings text).parse name =
      (⟨name, r.1.toOption.getD []⟩, ⟨(Session.start settings text).source, r.2⟩) := by
  subst hd
  rw [Session.parse_eq_run, h.state_eq]
  exact congrArg (fun r : Except Failure (List Stmt) × ParseState => ((⟨name, r.1.toOption.getD []⟩,
    ⟨(Session.start settings text).source, r.2⟩) : Program × Session)) hrun

theorem get_eq {i : Nat} {t : Token} (ht : ts[i]? = some t) :
    (Session.start settings text).source.stream.get i = t := by
  rw [← h.body_eq, Array.getElem?_toList] at ht
  obtain ⟨hlt, heq⟩ := Array.getElem?_eq_some_iff.1 ht
  rw [TokenStream.get_of_lt _ hlt, heq]

end Session

/-! ### Lexemes in front of a text -/

/-- A lexeme is cut off if it is the first piece of the text. -/
theorem word (start : Nat) (c : Char) (cs : List Char) {kind : TokenKind}
    (hfirst : firstPiece dialect c (cs ++ rest) = (.lexeme kind, cs.length))
    (h : CleanCut dialect (start + Text.byteLength (c :: cs)) rest ts) :
    CleanCut dialect start (c :: (cs ++ rest)) (⟨kind, String.ofList (c :: cs), start⟩ :: ts) :=
  .lexeme hfirst h

section Marks

variable (h : CleanCut dialect (start + 1) rest ts)

include h

theorem space : CleanCut dialect start (' ' :: rest) ts :=
  .blank rfl h

theorem lparen : CleanCut dialect start ('(' :: rest) (⟨.lparen, "(", start⟩ :: ts) :=
  word start '(' [] (by cases dialect <;> rfl) h

theorem rparen : CleanCut dialect start (')' :: rest) (⟨.rparen, ")", start⟩ :: ts) :=
  word start ')' [] (by cases dialect <;> rfl) h

theorem semicolon : CleanCut dialect start (';' :: rest) (⟨.semicolon, ";", start⟩ :: ts) :=
  word start ';' [] (by cases dialect <;> rfl) h

end Marks

/-- The same mark over and over. -/
theorem replicate {c : Char} {k : TokenKind} {w : String}
    (hmark : ∀ {start rest ts}, CleanCut dialect (start + 1) rest ts →
      CleanCut dialect start (c :: rest) (⟨k, w, start⟩ :: ts))
    (n : Nat) (h : CleanCut dialect (start + n) rest ts) :
    CleanCut dialect start (List.replicate n c ++ rest)
      ((List.range n).map (fun i => ⟨k, w, start + i⟩) ++ ts) := by
  induction n generalizing start with
  | zero => exact h
  | succ n ih =>
    have h' : CleanCut dialect (start + 1 + n) rest ts := by rwa [Nat.add_assoc, Nat.add_comm 1]
    have htokens : (List.range (n + 1)).map (fun i => (⟨k, w, start + i⟩ : Token)) =
        ⟨k, w, start⟩ :: (List.range n).map fun i => ⟨k, w, start + 1 + i⟩ := by
      simp [List.range_succ_eq_map, Nat.add_assoc, Nat.add_comm 1]
    rw [htokens]
    exact hmark (ih h')

end CleanCut

end CTree
