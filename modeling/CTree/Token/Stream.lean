import CTree.Token.Basic

/-!
# Token streams

The tokens of a text and the `eof` that ends them. Reading past the end gives that `eof` again, so
every index has a token.
-/

namespace CTree

/-- Tokens and the `eof` after them. -/
structure TokenStream where
  body : Array Token
  last : Token
  last_kind : last.kind = .eof

namespace TokenStream

/-- The number of tokens, the last one included. -/
def size (ts : TokenStream) : Nat :=
  ts.body.size + 1

/-- The token at an index, or the last one. -/
def get (ts : TokenStream) (i : Nat) : Token :=
  if h : i < ts.body.size then ts.body[i] else ts.last

/-- All tokens in order. -/
def toList (ts : TokenStream) : List Token :=
  ts.body.toList ++ [ts.last]

/-- The tokens from index `start` up to index `stop`, the last one never among them. -/
def between (ts : TokenStream) (start stop : Nat) : List Token :=
  (ts.body.extract start stop).toList

/-- The stream of tokens. If they do not end with `eof`, one is put after them. -/
def ofList (tokens : List Token) : TokenStream :=
  match tokens.getLast? with
  | none => ⟨#[], ⟨.eof, "", 0⟩, rfl⟩
  | some t =>
    if h : t.kind = .eof then ⟨tokens.dropLast.toArray, t, h⟩
    else ⟨tokens.toArray, ⟨.eof, "", t.stop⟩, rfl⟩

theorem get_of_lt (ts : TokenStream) {i : Nat} (h : i < ts.body.size) :
    ts.get i = ts.body[i] := by
  simp [get, h]

theorem get_of_le (ts : TokenStream) {i : Nat} (h : ts.body.size ≤ i) : ts.get i = ts.last := by
  simp [get, Nat.not_lt.2 h]

theorem getLast?_toList (ts : TokenStream) : ts.toList.getLast? = some ts.last :=
  List.getLast?_concat

theorem get_eq_getD (ts : TokenStream) (i : Nat) : ts.get i = ts.toList.getD i ts.last := by
  rw [toList, List.getD_eq_getElem?_getD]
  by_cases hi : i < ts.body.size
  · rw [get_of_lt ts hi, List.getElem?_append_left hi, Array.getElem?_toList,
      Array.getElem?_eq_getElem hi, Option.getD_some]
  · have hle := Nat.le_of_not_lt hi
    rw [get_of_le ts hle, List.getElem?_append_right hle]
    cases i - ts.body.toList.length with
    | zero => rfl
    | succ k => rfl

/-- The stream of some tokens is these tokens, with an `eof` after them if they do not end with one. -/
theorem toList_ofList (tokens : List Token) :
    (ofList tokens).toList = if tokens.getLast?.any (·.kind == .eof) then tokens
      else tokens ++ [⟨.eof, "", tokens.getLast?.elim 0 Token.stop⟩] := by
  rcases tokens.eq_nil_or_concat with rfl | ⟨init, t, rfl⟩
  · rfl
  · by_cases h : t.kind = .eof
    · simp [ofList, toList, h]
    · simp [ofList, toList, h]

end TokenStream

end CTree
