import GrammarAtlas.Lexeme.Basic

/-!
# Where delimited pieces end

Three kinds of piece run to a closing delimiter.  Each function below takes what
comes after the opening delimiter and finds the place behind the closing one.

* A literal ends at its own quote mark.  A backslash takes the next character
  with it, but never a line feed: a literal that meets a backslash before a line
  feed cannot close any more, and is cut between the two.
* A comment ends at the first star followed by a slash.
* A block ends at the brace that balances its opening one.  Braces between quote
  marks do not count, and between quote marks a backslash takes the next byte
  with it, whatever it is.  Blocks are scanned byte by byte.
-/

namespace GrammarAtlas

namespace Literal

/-- Cuts behind the closing quote mark `q`. -/
def cut (q : Char) : Text → Cut
  | [] => ⟨false, [], []⟩
  | [c] => ⟨c = q && c ≠ '\\', [c], []⟩
  | c :: d :: t =>
    if c = '\\' then
      if d = '\n' then ⟨false, [c], d :: t⟩ else ((cut q t).cons d).cons c
    else if c = q then ⟨true, [c], d :: t⟩
    else (cut q (d :: t)).cons c

theorem taken_append_rest (q : Char) (t : Text) : (cut q t).taken ++ (cut q t).rest = t := by
  fun_induction cut q t <;> simp_all

end Literal

namespace Comment

/-- Cuts behind the first star that is followed by a slash. -/
def cut : Text → Cut
  | [] => ⟨false, [], []⟩
  | [c] => ⟨false, [c], []⟩
  | c :: d :: t =>
    if c = '*' ∧ d = '/' then ⟨true, [c, d], t⟩ else (cut (d :: t)).cons c

theorem taken_append_rest (t : Text) : (cut t).taken ++ (cut t).rest = t := by
  fun_induction cut t <;> simp_all

end Comment

namespace Block

/-- What the scan finds of a block: how many bytes it takes, and whether the
block is closed. -/
structure Extent where
  size : Nat
  closed : Bool
  deriving DecidableEq, Repr

/-- The extent of a block that has some more bytes in front. -/
def Extent.advance (n : Nat) (e : Extent) : Extent := { e with size := e.size + n }

/-- Scans the bytes behind an opening brace through the brace that balances it.
`depth` counts the braces that are open, `quote` is the quote mark that is open. -/
def scan (depth : Nat) (quote : Option UInt8) : List UInt8 → Extent
  | [] => ⟨0, false⟩
  | b :: bs =>
    match quote with
    | some q =>
      if b = '\\'.toUInt8 then
        match bs with
        | [] => ⟨1, false⟩
        | _ :: bs => (scan depth (some q) bs).advance 2
      else if b = q then (scan depth none bs).advance 1
      else (scan depth (some q) bs).advance 1
    | none =>
      if b = '\''.toUInt8 ∨ b = '"'.toUInt8 then (scan depth (some b) bs).advance 1
      else if b = '\x7b'.toUInt8 then (scan (depth + 1) none bs).advance 1
      else if b = '\x7d'.toUInt8 then
        if depth - 1 = 0 then ⟨1, true⟩ else (scan (depth - 1) none bs).advance 1
      else (scan depth none bs).advance 1

end Block
end GrammarAtlas
