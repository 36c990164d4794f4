import CTree.Proofs.Progress

/-!
# A source with one item

If one attempt at an item takes a source up to its end, then the loop over items finds what this attempt
gives and nothing else.
-/

namespace CTree

namespace Grammar

open Parse

variable {g : Grammar} {source : Source} {s t : ParseState} {stmt : Stmt} {found : Option (Option Stmt)}
  {inNamespace : Bool} {round : Nat}

/-- A round attempts an item and goes on after it. -/
theorem run_itemRound_of_attempt (hround : round < source.settings.maxIterations)
    (heof : (source.view s).kind 0 ≠ .eof) (hbrace : (source.view s).kind 0 ≠ .rbrace)
    (h : (attempt g.item).run source s = (.ok found, t)) :
    (g.itemRound inNamespace round).run source s = (.ok (some (found.join.toList, round + 1)), t) := by
  unfold itemRound
  rw [run_bind_ok run_kind]
  split
  · rename_i hk
    exact (heof hk).elim
  · rename_i hk
    exact (hbrace hk).elim
  · rw [run_bind_ok run_settings, if_neg (Nat.not_le_of_lt hround), run_bind_ok h]
    rfl

section Single

variable (hiterations : 0 < source.settings.maxIterations) (heof : (source.view s).kind 0 ≠ .eof)
  (hbrace : (source.view s).kind 0 ≠ .rbrace)

include hiterations heof hbrace

/-- The only attempt at an item decides what is found. -/
theorem run_items_of_attempt (h : (attempt g.item).run source s = (.ok found, t))
    (hend : (source.view t).kind 0 = .eof) : (g.items false).run source s = (.ok found.join.toList, t) := by
  have hround : (g.itemRound false 0).run source s = (.ok (some (found.join.toList, 1)), t) :=
    run_itemRound_of_attempt hiterations heof hbrace h
  have hlast : (g.itemRound false 1).run source t = (.ok none, t) := by
    unfold itemRound
    rw [run_bind_ok run_kind, hend]
    rfl
  have hlt := Source.position_lt heof
  have hremaining : (source.view s).remaining = source.stream.body.size + 1 - s.cursor.position := rfl
  obtain ⟨fuel, hfuel⟩ : ∃ fuel, (source.view s).remaining + 1 = fuel + 2 :=
    ⟨(source.view s).remaining - 1, by omega⟩
  have hrest : (roundsFor (g.itemRound false) (fuel + 1) 1).run source t = (.ok [], t) := by
    rw [roundsFor, run_bind_ok hlast]
    rfl
  unfold items rounds
  rw [run_bind_ok run_view, hfuel, roundsFor, run_bind_ok hround]
  show (roundsFor _ _ _ >>= fun rest => pure (found.join.toList ++ rest)).run source t = _
  rw [run_bind_ok hrest, run_pure, List.append_nil]

/-- The only item of a source is found. -/
theorem run_items_of_item (h : g.item.run source s = (.ok (some stmt), t))
    (hmoved : s.cursor.position < t.cursor.position) (hend : (source.view t).kind 0 = .eof) :
    (g.items false).run source s = (.ok [stmt], t) :=
  run_items_of_attempt hiterations heof hbrace (run_attempt_ok h hmoved) hend

end Single

end Grammar

end CTree
