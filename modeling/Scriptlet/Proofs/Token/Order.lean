import Scriptlet.Proofs.Token.Tiling

/-! # The order of tokens

The tokens of a text stand one behind the other: each is at least a byte long, and the next one
begins where it stops or later.
-/

namespace Scriptlet

open Text

/-- The offset just after the last of the tokens, or zero without one. -/
def Token.lastStop (tokens : List Token) : Nat :=
  (tokens.getLast?.map Token.stop).getD 0

/-- In the tokens of a text the offsets grow, and all stand before the end. -/
theorem tokenize_ordered {text : String} {tokens : List Token} (h : tokenize text = .ok tokens) :
    tokens.Pairwise (fun first second => first.offset < second.offset) ∧
      ∀ token ∈ tokens, token.offset < Token.lastStop tokens := by
  have htiling := (tiles_of_scan h).tiling
  constructor
  · exact htiling.ordered.imp fun hpair => hpair.1
  · intro token htoken
    obtain ⟨before, last, rfl⟩ : ∃ before last, tokens = before ++ [last] :=
      ⟨_, _, (List.dropLast_concat_getLast (List.ne_nil_of_mem htoken)).symm⟩
    have hlast : last.offset < last.stop := by
      have hne := (htiling.placed last (by simp)).1
      exact Nat.lt_add_of_pos_right (byteLength_pos (by simpa using hne))
    simp only [Token.lastStop, List.getLast?_append, List.getLast?_singleton, Option.some_or,
      Option.map_some, Option.getD_some]
    rw [List.mem_append, List.mem_singleton] at htoken
    rcases htoken with hbefore | rfl
    · have hnext := (List.pairwise_append.mp htiling.ordered).2.2 token hbefore last (by simp)
      exact Nat.lt_trans hnext.1 hlast
    · exact hlast

/-- Whether a text has the given tokens can be decided without comparing errors. -/
theorem tokenize_eq_ok {text : String} {tokens : List Token}
    (h : (tokenize text).toOption = some tokens) : tokenize text = .ok tokens := by
  cases htokens : tokenize text with
  | error error =>
      rw [htokens] at h
      cases h
  | ok others =>
      rw [htokens] at h
      rw [Option.some.inj h]

end Scriptlet
