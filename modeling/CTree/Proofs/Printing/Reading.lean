import CTree.Proofs.Frame
import CTree.Proofs.Printing.Lexeme

/-!
# Reading lexemes

What a parser does where given lexemes stand. `Reads` says that it takes them all and gives a value,
if the token after them does not go on with what they say; `Reaches` says so of a loop that is not
over yet.
-/

namespace CTree

/-! ### Lexemes in a stream -/

namespace Source

/-- The kind of the token at an index. -/
def kindAt (source : Source) (i : Nat) : TokenKind :=
  (source.stream.get i).kind

/-- From an index on the given lexemes stand in the stream. -/
def Sees (source : Source) : Nat → List Lexeme → Prop
  | _, [] => True
  | i, w :: ws =>
    i < source.stream.body.size ∧ (source.stream.get i).lexeme = w ∧ source.Sees (i + 1) ws

variable {source : Source} {i : Nat} {w : Lexeme} {ws ws' : List Lexeme}

theorem sees_append :
    source.Sees i (ws ++ ws') ↔ source.Sees i ws ∧ source.Sees (i + ws.length) ws' := by
  induction ws generalizing i with
  | nil => simp [Sees]
  | cons w ws ih =>
    simp only [List.cons_append, Sees, ih, List.length_cons, Nat.add_assoc, Nat.add_comm 1, and_assoc]

theorem Sees.kindAt (h : source.Sees i (w :: ws)) : source.kindAt i = w.kind := by
  have hlexeme := congrArg Lexeme.kind h.2.1
  exact hlexeme

theorem Sees.text (h : source.Sees i (w :: ws)) : (source.stream.get i).text = w.text := by
  have hlexeme := congrArg Lexeme.text h.2.1
  exact hlexeme

theorem Sees.le_size (h : source.Sees i ws) (hi : i ≤ source.stream.body.size) :
    i + ws.length ≤ source.stream.body.size := by
  induction ws generalizing i with
  | nil => exact hi
  | cons w ws ih =>
    have hle := ih h.2.2 h.1
    rw [List.length_cons]
    omega

/-- Lexemes stand in a stream if the tokens of its body are these lexemes, after others. -/
theorem sees_of_map {pre : List Lexeme}
    (h : source.stream.body.toList.map Token.lexeme = pre ++ ws) :
    source.Sees pre.length ws := by
  induction ws generalizing pre with
  | nil => trivial
  | cons w ws ih =>
    have hsize : source.stream.body.size = (pre ++ w :: ws).length := by
      rw [← h, List.length_map, Array.length_toList]
    have hlt : pre.length < source.stream.body.size := by
      rw [hsize, List.length_append, List.length_cons]
      omega
    have hget : (source.stream.get pre.length).lexeme = w := by
      have hat : (source.stream.body.toList.map Token.lexeme)[pre.length]? = some w := by
        rw [h, List.getElem?_append_right (Nat.le_refl _), Nat.sub_self]
        rfl
      rw [TokenStream.get_of_lt _ hlt]
      simpa [hlt] using hat
    have hrest := @ih (pre ++ [w]) (by rw [h, List.append_assoc]; rfl)
    rw [List.length_append] at hrest
    exact ⟨hlt, hget, hrest⟩

/-- After the lexemes that a stream is made of stands its end. -/
theorem kindAt_of_map (h : source.stream.body.toList.map Token.lexeme = ws) :
    source.kindAt ws.length = .eof := by
  have hsize : source.stream.body.size = ws.length := by
    rw [← h, List.length_map, Array.length_toList]
  rw [kindAt, TokenStream.get_of_le _ (Nat.le_of_eq hsize)]
  exact source.stream.last_kind

end Source

/-! ### States -/

/-- The state with the cursor so many tokens ahead. -/
def ParseState.after (s : ParseState) (n : Nat) : ParseState :=
  s.atPosition (s.cursor.position + n)

/-- A state in which an expression of C is read: no type name is known, and `d` constructs may be
    opened. -/
structure Ready (source : Source) (d : Nat) (s : ParseState) : Prop where
  dialect : source.settings.dialect = .c
  names : s.cursor.known.names = []
  lenient : s.lenient = false
  inside : s.cursor.position ≤ source.stream.body.size
  room : s.cursor.depth + d ≤ source.settings.maxDepth

namespace ParseState

variable {s : ParseState}

@[simp]
theorem after_zero : s.after 0 = s := rfl

@[simp]
theorem after_after (m n : Nat) : (s.after m).after n = s.after (m + n) := by
  simp only [after, atPosition, Cursor.reset, Nat.add_assoc]

@[simp]
theorem position_after (n : Nat) : (s.after n).cursor.position = s.cursor.position + n := rfl

end ParseState

namespace Ready

variable {source : Source} {d : Nat} {s : ParseState} {ws : List Lexeme}

theorem after (h : Ready source d s) (hws : source.Sees s.cursor.position ws) :
    Ready source d (s.after ws.length) :=
  ⟨h.dialect, h.names, h.lenient, hws.le_size h.inside, h.room⟩

theorem isCpp (h : Ready source d s) : (source.view s).isCpp = false := by
  show (source.settings.dialect == .cpp) = false
  rw [h.dialect]
  rfl

end Ready

/-! ### What comes after -/

/-- The level of the expressions that a token goes on with. A `...` goes on with an argument, and a
    `::` with a name. -/
def TokenKind.extends? : TokenKind → Option Nat
  | .comma => some 0
  | .ellipsis => some 1
  | .question => some 2
  | .lparen | .lbracket | .dot | .arrow | .dotStar | .arrowStar | .plusPlus | .minusMinus => some 14
  | .colonColon => some 15
  | k =>
    if (BinaryOp.assignmentOfKind? k).isSome then some 1
    else (BinaryOp.ofKind? k).map (·.2 + 2)

/-- A token of the given kind does not go on with an expression of the given level. -/
def Ends (level : Nat) (k : TokenKind) : Prop :=
  ∀ n, k.extends? = some n → n < level

/-- The first of the given lexemes is of the class `q`; if there are none, all of the class `q'` are of
    the class `q`. -/
def Before (q q' : TokenKind → Prop) : List Lexeme → Prop
  | [] => ∀ k, q' k → q k
  | w :: _ => q w.kind

theorem before_of_forall {q q' : TokenKind → Prop} (h : ∀ k, q k) (ws : List Lexeme) :
    Before q q' ws := by
  cases ws with
  | nil => exact fun k _ => h k
  | cons w ws => exact h w.kind

theorem Ends.mono {l m : Nat} {k : TokenKind} (h : Ends m k) (hle : m ≤ l) : Ends l k :=
  fun n hn => Nat.lt_of_lt_of_le (h n hn) hle

/-! ### Parsers that read lexemes -/

section Reads

variable {α β σ : Type} {source : Source} {d l m : Nat} {ws ws' : List Lexeme} {w : Lexeme}
  {p : Parse α} {f : α → Parse β} {x : α} {y : β} {q q' : TokenKind → Prop}

/-- Where the given lexemes stand, and a token of the class `q` after them, a parser takes the lexemes
    and gives the value. -/
def ReadsBefore (source : Source) (d : Nat) (p : Parse α) (q : TokenKind → Prop) (ws : List Lexeme)
    (x : α) : Prop :=
  ∀ s, Ready source d s → source.Sees s.cursor.position ws →
    q (source.kindAt (s.cursor.position + ws.length)) → p.run source s = (.ok x, s.after ws.length)

/-- Where the given lexemes stand, and a token after them that an expression of the given level ends
    before, a parser takes the lexemes and gives the value. -/
abbrev Reads (source : Source) (d : Nat) (p : Parse α) (level : Nat) (ws : List Lexeme) (x : α) :
    Prop :=
  ReadsBefore source d p (Ends level) ws x

namespace ReadsBefore

theorem mono (h : ReadsBefore source d p q ws x) (hq : ∀ k, q' k → q k) :
    ReadsBefore source d p q' ws x :=
  fun s hs hsees hnext => h s hs hsees (hq _ hnext)

protected theorem pure (x : α) : ReadsBefore source d (pure x) q [] x :=
  fun _ _ _ _ => rfl

protected theorem bind (hp : ReadsBefore source d p q ws x) (hq : Before q q' ws')
    (hf : ReadsBefore source d (f x) q' ws' y) :
    ReadsBefore source d (p >>= f) q' (ws ++ ws') y := by
  intro s hs hsees hnext
  obtain ⟨hws, hws'⟩ := Source.sees_append.1 hsees
  have hfirst : q (source.kindAt (s.cursor.position + ws.length)) := by
    cases ws' with
    | nil =>
      rw [List.append_nil] at hnext
      exact hq _ hnext
    | cons w ws' =>
      rw [hws'.kindAt]
      exact hq
  rw [List.length_append, ← Nat.add_assoc] at hnext
  rw [Parse.run_bind_ok (hp s hs hws hfirst), hf (s.after ws.length) (hs.after hws) hws' hnext,
    ParseState.after_after, List.length_append]

/-- A sequence whose first part ends by itself. -/
theorem bindClosed (hp : ∀ q, ReadsBefore source d p q ws x)
    (hf : ReadsBefore source d (f x) q ws' y) : ReadsBefore source d (p >>= f) q (ws ++ ws') y :=
  (hp fun _ => True).bind (before_of_forall (fun _ => trivial) ws') hf

/-- A sequence whose first part has to see more than it takes. -/
theorem bindAhead (hp : ∀ s, Ready source d s → source.Sees s.cursor.position (ws ++ ws') →
      p.run source s = (.ok x, s.after ws.length))
    (hf : ReadsBefore source d (f x) q ws' y) :
    ReadsBefore source d (p >>= f) q (ws ++ ws') y := by
  intro s hs hsees hnext
  obtain ⟨hws, hws'⟩ := Source.sees_append.1 hsees
  rw [List.length_append, ← Nat.add_assoc] at hnext
  rw [Parse.run_bind_ok (hp s hs hsees), hf (s.after ws.length) (hs.after hws) hws' hnext,
    ParseState.after_after, List.length_append]

/-- A sequence whose second part takes nothing. -/
theorem andLast (hp : ReadsBefore source d p q ws x) (hf : ReadsBefore source d (f x) q [] y) :
    ReadsBefore source d (p >>= f) q ws y := by
  have h : ReadsBefore source d (p >>= f) q (ws ++ []) y := hp.bind (fun _ hk => hk) hf
  rwa [List.append_nil] at h

/-- A look whose answer makes no difference. -/
theorem look (hp : ∀ s, ∃ x, p.run source s = (.ok x, s))
    (hf : ∀ x, ReadsBefore source d (f x) q ws y) : ReadsBefore source d (p >>= f) q ws y := by
  intro s hs hsees hnext
  obtain ⟨x, hx⟩ := hp s
  rw [Parse.run_bind_ok hx]
  exact hf x s hs hsees hnext

/-- A look whose answer the lexemes settle. -/
theorem see (hp : ∀ s, Ready source d s → source.Sees s.cursor.position ws →
      p.run source s = (.ok x, s))
    (hf : ReadsBefore source d (f x) q ws y) : ReadsBefore source d (p >>= f) q ws y := by
  intro s hs hsees hnext
  rw [Parse.run_bind_ok (hp s hs hsees)]
  exact hf s hs hsees hnext

/-- A look at the kind of the first lexeme. -/
theorem kind {f : TokenKind → Parse β} (hf : ReadsBefore source d (f w.kind) q (w :: ws) y) :
    ReadsBefore source d (Parse.kind >>= f) q (w :: ws) y := by
  refine see (fun s _ hsees => ?_) hf
  rw [Parse.run_kind, show (source.view s).kind 0 = w.kind from hsees.kindAt]

/-- A look at the kind of the token after what was read. -/
theorem kindAfter {f : TokenKind → Parse β}
    (hf : ∀ k, q k → ReadsBefore source d (f k) q [] y) :
    ReadsBefore source d (Parse.kind >>= f) q [] y := by
  intro s hs hsees hnext
  rw [Parse.run_bind_ok Parse.run_kind]
  exact hf _ hnext s hs hsees hnext

theorem isCpp {f : Bool → Parse β} (hf : ReadsBefore source d (f false) q ws y) :
    ReadsBefore source d (Parse.isCpp >>= f) q ws y := by
  refine see (fun s hs _ => ?_) hf
  rw [Parse.run_isCpp, hs.isCpp]

theorem settings {f : Settings → Parse β} (hf : ReadsBefore source d (f source.settings) q ws y) :
    ReadsBefore source d (Parse.settings >>= f) q ws y :=
  see (fun _ _ _ => Parse.run_settings) hf

theorem check {k : TokenKind} {f : Bool → Parse β}
    (hf : ReadsBefore source d (f (w.kind == k)) q (w :: ws) y) :
    ReadsBefore source d (Parse.check k >>= f) q (w :: ws) y := by
  refine see (fun s _ hsees => ?_) hf
  rw [Parse.run_check, show (source.view s).kind 0 = w.kind from hsees.kindAt]

/-- A look at the kind of the second lexeme. -/
theorem checkSecond {w' : Lexeme} {k : TokenKind} {f : Bool → Parse β}
    (hf : ReadsBefore source d (f (w'.kind == k)) q (w :: w' :: ws) y) :
    ReadsBefore source d (Parse.checkAhead 1 k >>= f) q (w :: w' :: ws) y := by
  refine see (fun s _ hsees => ?_) hf
  rw [Parse.run_checkAhead, show (source.view s).kind 1 = w'.kind from hsees.2.2.kindAt]

theorem checkAfter {k : TokenKind} {f : Bool → Parse β} (hk : ¬ q k)
    (hf : ReadsBefore source d (f false) q [] y) :
    ReadsBefore source d (Parse.check k >>= f) q [] y := by
  unfold Parse.check
  rw [bind_assoc]
  refine kindAfter fun k' hk' => ?_
  have hne : k' ≠ k := by
    rintro rfl
    exact hk hk'
  rwa [pure_bind, beq_false_of_ne hne]

/-! ### Single lexemes -/

theorem advance (hw : w.kind ≠ .eof) {f : Token → Parse β}
    (hf : ∀ t : Token, t.lexeme = w → ReadsBefore source d (f t) q ws y) :
    ReadsBefore source d (Parse.advance >>= f) q (w :: ws) y := by
  intro s hs hsees hnext
  have hkind : (source.view s).kind 0 ≠ .eof := by
    rw [show (source.view s).kind 0 = w.kind from hsees.kindAt]
    exact hw
  have hadvance : Parse.advance.run source s = (.ok ((source.view s).token 0), s.after 1) := by
    rw [Parse.run_advance, Source.advance_of_token hkind]
    rfl
  have hone : source.Sees s.cursor.position [w] := ⟨hsees.1, hsees.2.1, trivial⟩
  rw [List.length_cons, Nat.add_comm ws.length, ← Nat.add_assoc] at hnext
  rw [Parse.run_bind_ok hadvance, hf ((source.view s).token 0) hsees.2.1 (s.after 1) (hs.after hone)
    hsees.2.2 hnext, ParseState.after_after, List.length_cons, Nat.add_comm]

theorem skip (hw : w.kind ≠ .eof) {f : Unit → Parse β} (hf : ReadsBefore source d (f ()) q ws y) :
    ReadsBefore source d (Parse.skip >>= f) q (w :: ws) y := by
  unfold Parse.skip
  exact advance hw fun t _ => hf

theorem accept {k : TokenKind} {f : Bool → Parse β} (hw : w.kind = k) (hk : k ≠ .eof)
    (hf : ReadsBefore source d (f true) q ws y) :
    ReadsBefore source d (Parse.accept k >>= f) q (w :: ws) y := by
  unfold Parse.accept
  rw [bind_assoc]
  refine check ?_
  rw [hw, beq_self_eq_true, if_pos rfl, bind_assoc]
  refine skip (by rwa [hw]) ?_
  rwa [pure_bind]

theorem acceptOther {k : TokenKind} {f : Bool → Parse β} (hw : w.kind ≠ k)
    (hf : ReadsBefore source d (f false) q (w :: ws) y) :
    ReadsBefore source d (Parse.accept k >>= f) q (w :: ws) y := by
  unfold Parse.accept
  rw [bind_assoc]
  refine check ?_
  rwa [beq_false_of_ne hw, if_neg Bool.false_ne_true, pure_bind]

theorem acceptAfter {k : TokenKind} {f : Bool → Parse β} (hk : ¬ q k)
    (hf : ReadsBefore source d (f false) q [] y) :
    ReadsBefore source d (Parse.accept k >>= f) q [] y := by
  unfold Parse.accept
  rw [bind_assoc]
  refine checkAfter hk ?_
  rwa [if_neg Bool.false_ne_true, pure_bind]

theorem require {k : TokenKind} {place : String} {f : Token → Parse β} (hw : w.kind = k)
    (hk : k ≠ .eof) (hf : ∀ t : Token, t.lexeme = w → ReadsBefore source d (f t) q ws y) :
    ReadsBefore source d (Parse.require k place >>= f) q (w :: ws) y := by
  unfold Parse.require
  rw [bind_assoc]
  refine check ?_
  rw [hw, beq_self_eq_true, if_pos rfl]
  exact advance (by rwa [hw]) hf

theorem skipOver {k : TokenKind} {place : String} {f : Unit → Parse β} (hw : w.kind = k)
    (hk : k ≠ .eof) (hf : ReadsBefore source d (f ()) q ws y) :
    ReadsBefore source d (Parse.skipOver k place >>= f) q (w :: ws) y := by
  unfold Parse.skipOver
  rw [bind_assoc]
  refine require hw hk fun t _ => ?_
  rwa [pure_bind]

theorem name {place text : String} :
    ReadsBefore source d (Parse.name place) q [.name text] text := by
  unfold Parse.name
  refine require rfl (by decide) fun t ht => ?_
  have htext : t.text = text := congrArg Lexeme.text ht
  rw [htext]
  exact .pure text

theorem optionalAfter {k : TokenKind} (hw : w.kind = k) (hk : k ≠ .eof)
    (hp : ReadsBefore source d p q ws x) :
    ReadsBefore source d (Parse.optionalAfter k p) q (w :: ws) (some x) := by
  unfold Parse.optionalAfter
  exact .accept hw hk (hp.andLast (.pure (some x)))

theorem optionalAfter_none {k : TokenKind} (hk : ¬ q k) :
    ReadsBefore source d (Parse.optionalAfter k p) q [] none := by
  unfold Parse.optionalAfter
  exact .acceptAfter hk (.pure none)

/-! ### Constructs, the flag and attempts -/

theorem strictly (h : ReadsBefore source d p q ws x) :
    ReadsBefore source d (Parse.strictly p) q ws x := by
  intro s hs hsees hnext
  have hstate : ({ s with lenient := false } : ParseState) = s := by rw [← hs.lenient]
  have hrun := h s hs hsees hnext
  rw [Parse.strictly, Parse.run_withLeniency, hstate, hrun]
  rfl

theorem nested (h : ReadsBefore source d p q ws x) :
    ReadsBefore source (d + 1) (Parse.nested p) q ws x := by
  intro s hs hsees hnext
  have hroom := hs.room
  have hrun := h { s with cursor := { s.cursor with depth := s.cursor.depth + 1 } }
    ⟨hs.dialect, hs.names, hs.lenient, hs.inside, by show s.cursor.depth + 1 + d ≤ _; omega⟩
    hsees hnext
  rw [Parse.run_nested, if_neg (by omega), hrun]
  rfl

theorem speculate (h : ReadsBefore source d p q ws x) :
    ReadsBefore source d (Parse.speculate p) q ws (some x) :=
  fun s hs hsees hnext => Parse.run_speculate_ok (h s hs hsees hnext)

/-- An attempt that takes a lexeme makes progress. -/
theorem attempt (hws : ws ≠ []) (h : ReadsBefore source d p q ws x) :
    ReadsBefore source d (Parse.attempt p) q ws (some x) := by
  intro s hs hsees hnext
  have hpos := List.length_pos_iff.2 hws
  have hmoved : ((s.after ws.length).cursor.position == s.cursor.position) = false := by
    refine beq_false_of_ne ?_
    rw [ParseState.position_after]
    omega
  unfold Parse.attempt Parse.ensureProgress
  rw [Parse.run_bind_ok Parse.run_position,
    Parse.run_bind_ok (Parse.run_recovering_ok (h s hs hsees hnext)), bind_assoc,
    Parse.run_bind_ok Parse.run_position, hmoved]
  rfl

/-- The fuel of a loop is enough, since each of its rounds takes a token. -/
theorem fuelled {p : Nat → Parse α}
    (h : ∀ n, ws.length < n → ReadsBefore source d (p n) q ws x) :
    ReadsBefore source d (Parse.view >>= fun v => p (v.remaining + 1)) q ws x := by
  intro s hs hsees hnext
  rw [Parse.run_bind_ok Parse.run_view]
  refine h _ ?_ s hs hsees hnext
  have hle := hsees.le_size hs.inside
  show ws.length < source.stream.body.size + 1 - s.cursor.position + 1
  omega

/-- A loop whose first step gives nothing. -/
theorem stop {f : σ → Parse (Option σ)} {a : σ} (h : ReadsBefore source d (f a) q [] none) :
    ReadsBefore source d (Parse.iterate f a) q [] a := by
  intro s hs hsees hnext
  rw [Parse.iterate, Parse.run_bind_ok Parse.run_view, Parse.iterateFor,
    Parse.run_bind_ok (h s hs hsees hnext)]
  rfl

theorem iterate {f : σ → Parse (Option σ)} {a b : σ}
    (h : ∀ n, ws.length < n → ReadsBefore source d (Parse.iterateFor f n a) q ws b) :
    ReadsBefore source d (Parse.iterate f a) q ws b :=
  fuelled h

theorem collect {next : Parse (Option α)} {xs : List α}
    (h : ∀ n, ws.length < n → ReadsBefore source d (Parse.collectFor next n) q ws xs) :
    ReadsBefore source d (Parse.collect next) q ws xs :=
  fuelled h

theorem rounds {round : σ → Parse (Option (List α × σ))} {a : σ} {xs : List α}
    (h : ∀ n, ws.length < n → ReadsBefore source d (Parse.roundsFor round n a) q ws xs) :
    ReadsBefore source d (Parse.rounds round a) q ws xs :=
  fuelled h

theorem chain {item : σ → Parse α} {next : Parse σ} {a : σ} {xs : List α}
    (h : ∀ n, ws.length < n → ReadsBefore source d (Parse.chainFor item next n a) q ws xs) :
    ReadsBefore source d (Parse.chain item next a) q ws xs :=
  fuelled h

end ReadsBefore

namespace Reads

theorem weaken (h : Reads source d p l ws x) (hle : m ≤ l) : Reads source d p m ws x :=
  h.mono fun _ hends => hends.mono hle

/-- A sequence whose second part takes nothing and ends where a looser expression does. -/
theorem bindLast (hp : Reads source d p l ws x) (hle : m ≤ l) (hf : Reads source d (f x) m [] y) :
    Reads source d (p >>= f) m ws y :=
  (hp.weaken hle).andLast hf

end Reads

/-! ### Loops -/

/-- A loop that starts in the state `s` gets to a value and a state. -/
inductive Reaches (source : Source) (p : Parse σ) (f : σ → Parse (Option σ)) (s : ParseState) :
    σ → ParseState → Prop
  | first {x : σ} {t : ParseState} (h : p.run source s = (.ok x, t)) : Reaches source p f s x t
  | next {x y : σ} {t u : ParseState} (h : Reaches source p f s x t)
    (hstep : (f x).run source t = (.ok (some y), u))
    (hmove : t.cursor.position < u.cursor.position) : Reaches source p f s y u

/-- Where the given lexemes stand, a loop gets to the value and past the lexemes. -/
def Leads (source : Source) (d : Nat) (p : Parse σ) (f : σ → Parse (Option σ)) (level : Nat)
    (ws : List Lexeme) (x : σ) : Prop :=
  ∀ s, Ready source d s → source.Sees s.cursor.position ws →
    Ends level (source.kindAt (s.cursor.position + ws.length)) →
    Reaches source p f s x (s.after ws.length)

/-- The rounds of a loop that are left are enough, since each round that was taken took a token. -/
theorem Reaches.exists_rounds {p : Parse σ} {f : σ → Parse (Option σ)} {s t : ParseState} {x : σ}
    (h : Reaches source p f s x t) : ∃ a u, p.run source s = (.ok a, u) ∧
      u.cursor.position ≤ t.cursor.position ∧
      ∀ n, ∃ n', n ≤ n' ∧
        (Parse.iterateFor f (n + (t.cursor.position - u.cursor.position)) a).run source u =
          (Parse.iterateFor f n' x).run source t := by
  induction h with
  | @first x t h =>
    refine ⟨x, t, h, Nat.le_refl _, fun n => ⟨n, Nat.le_refl _, ?_⟩⟩
    rw [Nat.sub_self, Nat.add_zero]
  | @next x y t u h hstep hmove ih =>
    obtain ⟨a, v, hrun, hle, hrounds⟩ := ih
    refine ⟨a, v, hrun, by omega, fun n => ?_⟩
    obtain ⟨n', hn', heq⟩ := hrounds (n + (u.cursor.position - t.cursor.position))
    obtain ⟨i, rfl⟩ : ∃ i, n' = i + 1 := ⟨n' - 1, by omega⟩
    refine ⟨i, by omega, ?_⟩
    have hsum : n + (u.cursor.position - v.cursor.position) =
        n + (u.cursor.position - t.cursor.position) +
          (t.cursor.position - v.cursor.position) := by omega
    rw [hsum, heq, Parse.iterateFor, Parse.run_bind_ok hstep]

namespace Leads

variable {p : Parse σ} {f : σ → Parse (Option σ)} {x y : σ}

theorem first (h : Reads source d p l ws x) : Leads source d p f l ws x :=
  fun s hs hsees hends => .first (h s hs hsees hends)

theorem weaken (h : Leads source d p f l ws x) (hle : m ≤ l) : Leads source d p f m ws x :=
  fun s hs hsees hends => h s hs hsees (hends.mono hle)

theorem next (h : Leads source d p f l ws x) (hl : Ends l w.kind)
    (hstep : Reads source d (f x) m (w :: ws') (some y)) :
    Leads source d p f m (ws ++ w :: ws') y := by
  intro s hs hsees hends
  obtain ⟨hws, hws'⟩ := Source.sees_append.1 hsees
  have hreach := h s hs hws (by rwa [hws'.kindAt])
  rw [List.length_append, ← Nat.add_assoc] at hends
  have hrun := hstep (s.after ws.length) (hs.after hws) hws' hends
  rw [List.length_append, ← ParseState.after_after]
  refine .next hreach hrun ?_
  simp only [ParseState.position_after, List.length_cons]
  omega

/-- A loop ends where its step gives nothing. -/
theorem finish (h : Leads source d p f l ws x) (hle : m ≤ l)
    (hstep : Reads source d (f x) m [] none) :
    Reads source d (p >>= Parse.iterate f) m ws x := by
  intro s hs hsees hends
  have hready := hs.after hsees
  obtain ⟨a, u, hrun, hpos, hrounds⟩ := (h s hs hsees (hends.mono hle)).exists_rounds
  rw [Parse.run_bind_ok hrun, Parse.iterate, Parse.run_bind_ok Parse.run_view]
  have hinside := hready.inside
  obtain ⟨n', hn', heq⟩ := hrounds (source.stream.body.size - (s.after ws.length).cursor.position + 2)
  have hfuel : (source.view u).remaining + 1 =
      source.stream.body.size - (s.after ws.length).cursor.position + 2 +
        ((s.after ws.length).cursor.position - u.cursor.position) := by
    show source.stream.body.size + 1 - u.cursor.position + 1 = _
    omega
  obtain ⟨i, rfl⟩ : ∃ i, n' = i + 1 := ⟨n' - 1, by omega⟩
  have hnone := hstep (s.after ws.length) hready trivial hends
  rw [hfuel, heq, Parse.iterateFor, Parse.run_bind_ok hnone]
  rfl

end Leads

end Reads

end CTree
