import GrammarAtlas.Proofs.Lexeme.Pieces
import GrammarAtlas.Token.Lexing

/-!
# Lexing, piece by piece

Lexing carries an offset and, while it reads garbage, the place where the garbage
began.  What it emits can be said without either: each piece of the source emits
on its own, knowing only where it stands (`emissions_eq`).  A piece of garbage is
emitted when lexing is past its end; it makes no difference to the order, since
nothing is emitted in between.
-/

namespace GrammarAtlas

/-- A piece with the text in front of it. -/
structure PlacedLexeme where
  before : Text
  lexeme : Lexeme

namespace PlacedLexeme

/-- Gives each piece its place, the first behind the given text. -/
def place (before : Text) : List Lexeme → List PlacedLexeme
  | [] => []
  | l :: ls => ⟨before, l⟩ :: place (before ++ l.text) ls

/-- The bytes that the piece covers. -/
def span (p : PlacedLexeme) : Span :=
  ⟨Text.byteSize p.before, Text.byteSize p.before + Text.byteSize p.lexeme.text⟩

/-- Whether a block, given with its opening brace, ends in the balancing one. -/
def isClosed : Text → Bool
  | [] => false
  | _ :: t => (Block.cut 0 none t).closed

/-- What the piece emits. -/
def emitted (source : Text) (lines : LineIndex) (p : PlacedLexeme) : List Emission :=
  if p.lexeme.kind = .garbage then Emission.garbage source lines p.span
  else if p.lexeme.kind = .block then Emission.block lines p.span (isClosed p.lexeme.text)
  else if p.lexeme.kind.isTrivia then []
  else [Emission.ofKind lines p.lexeme.kind p.span]

/-- The piece as a token. -/
def token (lines : LineIndex) (p : PlacedLexeme) : Token :=
  ⟨p.lexeme.kind, p.span, lines.lineOf p.span.start,
    lines.lineOf (max (p.span.stop - 1) p.span.start)⟩

/-- The tokens among some pieces. -/
def tokensOf (lines : LineIndex) (before : Text) : List Lexeme → List Token
  | [] => []
  | l :: ls =>
    if l.kind.isTrivia then tokensOf lines (before ++ l.text) ls
    else token lines ⟨before, l⟩ :: tokensOf lines (before ++ l.text) ls

end PlacedLexeme

namespace TokenStream

open Lexeme PlacedLexeme

variable {source before t : Text} {lines : LineIndex} {c : Char} {l : Lexeme} {ls : List Lexeme}

/-- Pieces behind garbage that has been read. -/
def behind : Option Text → List Lexeme → List Lexeme
  | none, ls => ls
  | some g, ls => glue ⟨.garbage, g⟩ ls

/-- Garbage that has been read is emitted when something else follows. -/
theorem flatMap_emitted_behind (g : Option Text) (hl : l.kind ≠ .garbage) :
    (place before (behind g (l :: ls))).flatMap (emitted source lines) =
      flush source lines (g.map fun _ => Text.byteSize before)
          (Text.byteSize (before ++ g.getD [])) ++
        emitted source lines ⟨before ++ g.getD [], l⟩ ++
        (place (before ++ g.getD [] ++ l.text) ls).flatMap (emitted source lines) := by
  cases g with
  | none =>
    simp [behind, place, flush]
  | some g =>
    have hglue : glue ⟨.garbage, g⟩ (l :: ls) = ⟨.garbage, g⟩ :: l :: ls := by
      rw [glue, if_neg fun hboth => hl hboth.2]
    simp [behind, hglue, place, flush, emitted, span]

theorem behind_glue_garbage (g : Option Text) (u : Text) (ls : List Lexeme) :
    behind g (glue ⟨.garbage, u⟩ ls) = behind (some (g.getD [] ++ u)) ls := by
  cases g with
  | none => rfl
  | some g => exact glue_glue g u ls

/-- Garbage is taken up into the run. -/
theorem emit_garbage {offset : Nat} {garbage : Option Nat} (hkind : (piece c t).1.kind = .garbage) :
    emit source lines offset garbage (c :: t) =
      emit source lines (offset + Text.byteSize (piece c t).1.text) (garbage <|> some offset)
        (piece c t).2 := by
  have hpiece : piece c t = next c t := by
    refine if_neg ?_
    intro hbrace
    rw [piece, if_pos hbrace] at hkind
    cases hkind
  rw [hpiece] at hkind ⊢
  rw [emit]
  simp only [hkind, if_true]

/-- A brace takes its block with it. -/
theorem emit_brace {garbage : Option Nat} (hbrace : (next c t).1.kind = .braceOpen) :
    emit source lines (Text.byteSize before) garbage (c :: t) =
      flush source lines garbage (Text.byteSize before) ++
        emitted source lines ⟨before, (piece c t).1⟩ ++
        emit source lines (Text.byteSize (before ++ (piece c t).1.text)) none (piece c t).2 := by
  have hpiece : piece c t = delimited .block (next c t).1.text (Block.cut 0 none (next c t).2) :=
    if_pos hbrace
  have htext : (next c t).1.text = ['{'] := by
    have hmatch := matches_next c t
    rw [Matches, hbrace] at hmatch
    exact hmatch.resolve_left (by decide)
  have hscan : Block.scan 1 none (next c t).2.utf8 = (Block.cut 0 none (next c t).2).extent :=
    Block.scan_utf8 0 (by trivial : Block.IsQuote none) _
  have hdrop : Text.dropBytes? (next c t).2 (Text.byteSize (Block.cut 0 none (next c t).2).taken) =
      some (Block.cut 0 none (next c t).2).rest := by
    have hrest := Block.dropBytes?_scan (next c t).2
    rwa [hscan] at hrest
  have hclosed : isClosed ('{' :: (Block.cut 0 none (next c t).2).taken) =
      (Block.cut 0 none (next c t).2).closed := by
    rw [isClosed, Block.cut_taken]
  rw [Text.byteSize_append, hpiece, emit, hscan, htext]
  simp [hbrace, delimited, emitted, span, Cut.extent, hdrop, hclosed, Nat.add_assoc]

/-- Any piece but garbage ends the run and is emitted on its own. -/
theorem emit_piece {garbage : Option Nat} (hkind : (piece c t).1.kind ≠ .garbage) :
    emit source lines (Text.byteSize before) garbage (c :: t) =
      flush source lines garbage (Text.byteSize before) ++
        emitted source lines ⟨before, (piece c t).1⟩ ++
        emit source lines (Text.byteSize (before ++ (piece c t).1.text)) none (piece c t).2 := by
  by_cases hbrace : (next c t).1.kind = .braceOpen
  · exact emit_brace hbrace
  · have hpiece : piece c t = next c t := if_neg hbrace
    have hblock : (next c t).1.kind ≠ .block := by
      intro hblock
      have hmatch := matches_next c t
      rw [Matches, hblock] at hmatch
      exact hmatch.elim (by decide) (Language.notMem_zero _)
    rw [hpiece] at hkind ⊢
    rw [Text.byteSize_append, emit]
    simp only [hkind, hbrace, if_false]
    cases htrivia : (next c t).1.kind.isTrivia with
    | true => simp [emitted, hkind, hblock, htrivia]
    | false => simp [emitted, hkind, hblock, htrivia, span]

/-- What `emit` gives for garbage that has been read and the rest behind it. -/
theorem emit_eq (g : Option Text) (h : source = before ++ g.getD [] ++ t) :
    emit source lines (Text.byteSize (before ++ g.getD []))
        (g.map fun _ => Text.byteSize before) t =
      (place before (behind g (scan t))).flatMap (emitted source lines) := by
  induction t using scan.induct generalizing before g with
  | case1 =>
    rw [emit, scan, h]
    cases g with
    | none => rfl
    | some g => simp [behind, glue, place, flush, emitted, span]
  | case2 c t ih =>
    have happend := piece_append c t
    rw [scan]
    by_cases hkind : (piece c t).1.kind = .garbage
    · -- the run goes on
      have hpiece : (piece c t).1 = ⟨.garbage, (piece c t).1.text⟩ := by rw [← hkind]
      have hsplit : source = before ++ (some (g.getD [] ++ (piece c t).1.text)).getD [] ++
          (piece c t).2 := by
        rw [h, ← happend]
        simp
      have hnext := ih _ hsplit
      rw [hpiece, behind_glue_garbage, ← hnext, emit_garbage hkind]
      cases g <;> simp [Nat.add_assoc]
    · have hsplit : source = before ++ g.getD [] ++ (piece c t).1.text ++
          (none : Option Text).getD [] ++ (piece c t).2 := by
        rw [h, ← happend]
        simp
      have hnext := ih none hsplit
      rw [Option.getD_none, List.append_nil, Option.map_none] at hnext
      rw [glue_of_ne_garbage hkind, flatMap_emitted_behind g hkind, emit_piece hkind, hnext]
      rfl

/-- **What lexing emits is what the pieces of the source emit**, in order. -/
theorem emissions_eq (source : Text) :
    emissions source = (place [] (scan source)).flatMap (emitted source (.ofSource source)) := by
  have hsplit : source = [] ++ (none : Option Text).getD [] ++ source := rfl
  exact emit_eq none hsplit

/-- Of what a piece emits, one is a token, unless the piece is trivia. -/
theorem filterMap_token?_emitted (source : Text) (lines : LineIndex) (p : PlacedLexeme) :
    (emitted source lines p).filterMap (·.token?) =
      if p.lexeme.kind.isTrivia then [] else [p.token lines] := by
  unfold emitted
  by_cases hgarbage : p.lexeme.kind = .garbage
  · have htoken : p.token lines = ⟨.garbage, p.span, lines.lineOf p.span.start,
        lines.lineOf (max (p.span.stop - 1) p.span.start)⟩ := by rw [token, hgarbage]
    rw [if_pos hgarbage, hgarbage, htoken]
    rfl
  by_cases hblock : p.lexeme.kind = .block
  · have htoken : p.token lines = ⟨.block, p.span, lines.lineOf p.span.start,
        lines.lineOf (max (p.span.stop - 1) p.span.start)⟩ := by rw [token, hblock]
    rw [if_neg hgarbage, if_pos hblock, hblock, htoken]
    cases isClosed p.lexeme.text <;> rfl
  · rw [if_neg hgarbage, if_neg hblock]
    split <;> rfl

theorem filterMap_token?_flatMap (source : Text) (lines : LineIndex) (before : Text)
    (ls : List Lexeme) : ((place before ls).flatMap (emitted source lines)).filterMap (·.token?) =
      tokensOf lines before ls := by
  induction ls generalizing before with
  | nil => rfl
  | cons l ls ih =>
    rw [place, List.flatMap_cons, List.filterMap_append, ih, filterMap_token?_emitted, tokensOf]
    split <;> rfl

/-- **The tokens of a source are its pieces that are not trivia.** -/
theorem tokens_lex (source : Text) :
    (lex source).tokens = tokensOf (.ofSource source) [] (scan source) := by
  show (emissions source).filterMap (·.token?) = _
  rw [emissions_eq, filterMap_token?_flatMap]

end TokenStream
end GrammarAtlas
