import GrammarAtlas.Text.Basic
import GrammarAtlas.Token.Kind

/-!
# Lexemes and delimited pieces

A lexeme is a kind together with the text that has it.  Literals, blocks and
comments run to a closing delimiter; `Cut` is what looking for one gives.
-/

namespace GrammarAtlas

/-- A piece of text and what it is. -/
structure Lexeme where
  kind : TokenKind
  text : Text
  deriving DecidableEq, Repr

/-- A text cut where a delimited piece ends.  `taken` followed by `rest` is the
text; `closed` tells whether `taken` ends in the closing delimiter. -/
structure Cut where
  closed : Bool
  taken : Text
  rest : Text
  deriving DecidableEq, Repr

namespace Cut

/-- The cut of a text that has one more character in front. -/
def cons (c : Char) (k : Cut) : Cut := { k with taken := c :: k.taken }

@[simp] theorem closed_cons (c : Char) (k : Cut) : (k.cons c).closed = k.closed := rfl

@[simp] theorem taken_cons (c : Char) (k : Cut) : (k.cons c).taken = c :: k.taken := rfl

@[simp] theorem rest_cons (c : Char) (k : Cut) : (k.cons c).rest = k.rest := rfl

theorem cons_eq_iff {c : Char} {k : Cut} {closed : Bool} {u r : Text} :
    k.cons c = ⟨closed, c :: u, r⟩ ↔ k = ⟨closed, u, r⟩ := by
  obtain ⟨b, t, s⟩ := k
  simp [cons]

end Cut
end GrammarAtlas
