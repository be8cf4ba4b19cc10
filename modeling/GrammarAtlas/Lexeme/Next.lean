import GrammarAtlas.Lexeme.Delimited

/-!
# The longest match

`Lexeme.next` takes the longest piece off the front of a text that is some
lexeme.  Where nothing matches, the piece is garbage: a single character, or for
a literal that never closes everything up to where closing became impossible.
An opening brace is a piece of its own here; where its block ends is found by
`Block.scan`.
-/

namespace GrammarAtlas
namespace Lexeme

/-- Characters an identifier can start with. -/
def startsId (c : Char) : Bool := c.isAlpha || c = '_'

/-- Characters an identifier can go on with. -/
def continuesId (c : Char) : Bool := c.isAlphanum || c = '_'

/-- The space and the tab. -/
def isBlank (c : Char) : Bool := c = ' ' || c = '\t'

/-- The kind of a token of two punctuation characters. -/
def pair? (c d : Char) : Option TokenKind :=
  if c = ':' ∧ d = ':' then some .doubleColon
  else if c = '-' ∧ d = '>' then some .arrow
  else if c = '.' ∧ d = '.' ∨ c = '=' ∧ d = '>' ∨ c = '+' ∧ d = '=' then some .op
  else none

/-- The punctuation characters that are operators. -/
def operators : Text := "*+?~.=!^<>,$&#%/[]-\x7d".toList

/-- The kind of a token of one punctuation character. -/
def single? (c : Char) : Option TokenKind :=
  if c = '(' then some .parenOpen
  else if c = ')' then some .parenClose
  else if c = ':' then some .colon
  else if c = ';' then some .semi
  else if c = '|' then some .pipe
  else if c = '@' then some .atSign
  else if c ∈ operators then some .op
  else none

/-- The longest run of characters of a class behind the first character. -/
def run (kind : TokenKind) (p : Char → Bool) (c : Char) (t : Text) : Lexeme × Text :=
  (⟨kind, c :: t.takeWhile p⟩, t.dropWhile p)

/-- A piece that is delimited, behind its opening delimiter. -/
def delimited (kind : TokenKind) (opening : Text) (k : Cut) : Lexeme × Text :=
  (⟨kind, opening ++ k.taken⟩, k.rest)

/-- Punctuation, of two characters where possible. -/
def punctuation (c : Char) : Text → Lexeme × Text
  | [] => (⟨(single? c).getD .garbage, [c]⟩, [])
  | d :: t =>
    match pair? c d with
    | some kind => (⟨kind, [c, d]⟩, t)
    | none => (⟨(single? c).getD .garbage, [c]⟩, d :: t)

/-- A literal between quote marks, or the garbage that starts like one. -/
def literal (kind : TokenKind) (q : Char) (t : Text) : Lexeme × Text :=
  let k := Literal.cut q t
  delimited (if k.closed then kind else .garbage) [q] k

/-- What starts with a slash: a comment, or the slash alone. -/
def slash : Text → Lexeme × Text
  | '/' :: t => run .lineComment (· ≠ '\n') '/' ('/' :: t)
  | '*' :: t =>
    if (Comment.cut t).closed then delimited .blockComment ['/', '*'] (Comment.cut t)
    else (⟨.op, ['/']⟩, '*' :: t)
  | t => (⟨.op, ['/']⟩, t)

/-- A carriage return ends a line together with the line feed after it and is
garbage otherwise. -/
def carriageReturn : Text → Lexeme × Text
  | '\n' :: t => (⟨.newline, ['\r', '\n']⟩, t)
  | t => (⟨.garbage, ['\r']⟩, t)

/-- The lexeme at the front of the text `c :: t`, and what follows it. -/
def next (c : Char) (t : Text) : Lexeme × Text :=
  if startsId c then run .id continuesId c t
  else if c.isDigit then run .int Char.isDigit c t
  else if isBlank c then run .whitespace isBlank c t
  else if c = '\n' then (⟨.newline, [c]⟩, t)
  else if c = '\r' then carriageReturn t
  else if c = '\x7b' then (⟨.braceOpen, [c]⟩, t)
  else if c = '\'' then literal .char c t
  else if c = '"' then literal .string c t
  else if c = '/' then slash t
  else punctuation c t

@[simp] theorem run_append (kind : TokenKind) (p : Char → Bool) (c : Char) (t : Text) :
    (run kind p c t).1.text ++ (run kind p c t).2 = c :: t := by
  simp [run]

theorem punctuation_append (c : Char) (t : Text) :
    (punctuation c t).1.text ++ (punctuation c t).2 = c :: t := by
  cases t with
  | nil => rfl
  | cons d t => cases h : pair? c d <;> simp [punctuation, h]

theorem literal_append (kind : TokenKind) (q : Char) (t : Text) :
    (literal kind q t).1.text ++ (literal kind q t).2 = q :: t := by
  simp [literal, delimited, Literal.taken_append_rest]

theorem slash_append (t : Text) : (slash t).1.text ++ (slash t).2 = '/' :: t := by
  fun_cases slash t <;> simp_all [delimited, Comment.taken_append_rest]

theorem carriageReturn_append (t : Text) :
    (carriageReturn t).1.text ++ (carriageReturn t).2 = '\r' :: t := by
  fun_cases carriageReturn t <;> simp

/-- The lexeme and what follows it are the text. -/
theorem next_append (c : Char) (t : Text) : (next c t).1.text ++ (next c t).2 = c :: t := by
  fun_cases next c t <;>
    simp_all [carriageReturn_append, literal_append, slash_append, punctuation_append]

theorem next_text_ne_nil (c : Char) (t : Text) : (next c t).1.text ≠ [] := by
  have slash_ne (t : Text) : (slash t).1.text ≠ [] := by
    fun_cases slash t <;> simp [run, delimited]
  have carriageReturn_ne (t : Text) : (carriageReturn t).1.text ≠ [] := by
    fun_cases carriageReturn t <;> simp
  have punctuation_ne (t : Text) : (punctuation c t).1.text ≠ [] := by
    fun_cases punctuation c t <;> simp
  fun_cases next c t <;> simp_all [run, delimited, literal]

/-- What follows the first lexeme is shorter than the text. -/
theorem length_next_lt (c : Char) (t : Text) : (next c t).2.length < (c :: t).length := by
  have whole := congrArg List.length (next_append c t)
  have := List.length_pos_iff.mpr (next_text_ne_nil c t)
  rw [List.length_append] at whole
  omega

end Lexeme
end GrammarAtlas
