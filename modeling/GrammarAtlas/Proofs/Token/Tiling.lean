import GrammarAtlas.Proofs.Token.Placed
import GrammarAtlas.Proofs.Token.Reading

/-!
# Tokens tile the source

Lexing loses nothing and takes nothing twice.  The tokens stand one behind the
other, and whatever lies in front of them, between them and behind them is
complete trivia: runs of blanks, line ends and comments.  So every byte of the
source lies in one token or in one stretch of trivia (`Tiling`).

Pieces that are laid out behind a text have this property, by induction on the
pieces (`tiling_tokensOf`).  A stretch goes on as long as pieces of trivia
follow, so the induction carries the trivia that has been met since the last
token.
-/

namespace GrammarAtlas

/-- The span is the text `inside` between `before` and `after`. -/
structure Span.Cuts (span : Span) (source before inside after : Text) : Prop where
  source_eq : source = before ++ inside ++ after
  start_eq : span.start = Text.byteSize before
  stop_eq : span.stop = Text.byteSize (before ++ inside)

/-- Whether a byte lies in the span. -/
def Span.covers (span : Span) (i : Nat) : Bool := span.start ≤ i && i < span.stop

namespace TokenStream

open Lexeme PlacedLexeme

/-- The stretches from an offset to another one that no token covers: in front of
the first token, between neighbours, and behind the last. -/
def stretches (start : Nat) : List Token → Nat → List Span
  | [], stop => [⟨start, stop⟩]
  | t :: ts, stop => ⟨start, t.span.start⟩ :: stretches t.span.stop ts stop

/-- Pieces of complete trivia, one behind the other, between two texts. -/
inductive TriviaRun (before : Text) : Text → Text → Prop
  | nil (after : Text) : TriviaRun before [] after
  | snoc {inside piece after : Text} : TriviaRun before inside (piece ++ after) →
      Complete (before ++ inside) piece after → TriviaRun before (inside ++ piece) after

/-- **The tokens tile the source.** -/
structure Tiling (source : Text) (tokens : List Token) : Prop where
  /-- A token covers a text inside the source that is not empty. -/
  inside : ∀ t ∈ tokens, ∃ before text after,
    t.span.Cuts source before text after ∧ text ≠ []
  /-- Tokens stand one behind the other. -/
  ordered : tokens.Pairwise fun t u => t.span.start < t.span.stop ∧ t.span.stop ≤ u.span.start
  /-- No token is trivia or a lone opening brace. -/
  kinds : ∀ t ∈ tokens, t.kind.isTrivia = false ∧ t.kind ≠ .braceOpen
  /-- Only complete trivia lies outside the tokens. -/
  between : ∀ gap ∈ stretches 0 tokens (Text.byteSize source), ∃ before text after,
    gap.Cuts source before text after ∧ TriviaRun before text after
  /-- Every byte lies in one token or in one of the stretches, and in no other. -/
  once : ∀ i < Text.byteSize source,
    (tokens.map (·.span) ++ stretches 0 tokens (Text.byteSize source)).countP (·.covers i) = 1
  /-- Garbage tokens do not touch. -/
  garbage : ∀ t ∈ tokens, ∀ u ∈ tokens, t.kind = .garbage → u.kind = .garbage →
    t.span.stop ≠ u.span.start

/-! ## Tokens in order -/

/-- The tokens lie one behind the other from an offset to another one. -/
def InOrder (start : Nat) : List Token → Nat → Prop
  | [], stop => start ≤ stop
  | t :: ts, stop => start ≤ t.span.start ∧ t.span.start < t.span.stop ∧ InOrder t.span.stop ts stop

variable {start stop i : Nat} {t u : Token} {ts : List Token}

theorem InOrder.start_le (h : InOrder start ts stop) (hu : u ∈ ts) : start ≤ u.span.start := by
  induction ts generalizing start with
  | nil => exact absurd hu List.not_mem_nil
  | cons t ts ih =>
    obtain ⟨hle, hlt, hrest⟩ := h
    rcases List.mem_cons.mp hu with rfl | hu
    · exact hle
    · have hnext := ih hrest hu
      omega

theorem InOrder.start_lt_stop (h : InOrder start ts stop) (ht : t ∈ ts) :
    t.span.start < t.span.stop := by
  induction ts generalizing start with
  | nil => exact absurd ht List.not_mem_nil
  | cons u ts ih =>
    obtain ⟨-, hlt, hrest⟩ := h
    rcases List.mem_cons.mp ht with rfl | ht
    · exact hlt
    · exact ih hrest ht

theorem InOrder.pairwise (h : InOrder start ts stop) :
    ts.Pairwise fun t u => t.span.start < t.span.stop ∧ t.span.stop ≤ u.span.start := by
  induction ts generalizing start with
  | nil => exact .nil
  | cons t ts ih =>
    obtain ⟨-, hlt, hrest⟩ := h
    exact .cons (fun u hu => ⟨hlt, hrest.start_le hu⟩) (ih hrest)

/-- The first token and the stretch in front of it, and then the others. -/
theorem countP_cons (p : Span → Bool) :
    ((t :: ts).map (·.span) ++ stretches start (t :: ts) stop).countP p =
      (ts.map (·.span) ++ stretches t.span.stop ts stop).countP p +
        (if p t.span then 1 else 0) + (if p ⟨start, t.span.start⟩ then 1 else 0) := by
  simp only [List.map_cons, stretches, List.countP_append, List.countP_cons]
  omega

/-- Nothing that comes later covers a byte in front. -/
theorem InOrder.countP_eq_zero (h : InOrder start ts stop) (hi : i < start) :
    (ts.map (·.span) ++ stretches start ts stop).countP (·.covers i) = 0 := by
  induction ts generalizing start with
  | nil =>
    have hstart : ¬ start ≤ i := by omega
    simp [stretches, Span.covers, hstart]
  | cons t ts ih =>
    obtain ⟨hle, hlt, hrest⟩ := h
    have hstart : ¬ start ≤ i := by omega
    have htoken : ¬ t.span.start ≤ i := by omega
    rw [countP_cons, ih hrest (by omega)]
    simp [Span.covers, hstart, htoken]

/-- **Every byte is covered once.** -/
theorem InOrder.countP_eq_one (h : InOrder start ts stop) (hi : start ≤ i) (hi' : i < stop) :
    (ts.map (·.span) ++ stretches start ts stop).countP (·.covers i) = 1 := by
  induction ts generalizing start with
  | nil => simp [stretches, Span.covers, hi, hi']
  | cons t ts ih =>
    obtain ⟨hle, hlt, hrest⟩ := h
    rw [countP_cons]
    by_cases hfront : i < t.span.start
    · -- in the stretch in front of the token
      have htoken : ¬ t.span.start ≤ i := by omega
      rw [hrest.countP_eq_zero (by omega)]
      simp [Span.covers, hi, hfront, htoken]
    by_cases htoken : i < t.span.stop
    · have hstart : t.span.start ≤ i := by omega
      rw [hrest.countP_eq_zero htoken]
      simp [Span.covers, hfront, htoken, hstart]
    · rw [ih hrest (by omega)]
      simp [Span.covers, hfront, htoken]

/-! ## Pieces that are laid out -/

variable {source before front : Text} (lines : LineIndex) {l : Lexeme} {ls : List Lexeme}

/-- A text that is not empty takes bytes. -/
theorem byteSize_pos {text : Text} (h : text ≠ []) : 0 < Text.byteSize text := by
  cases text with
  | nil => exact absurd rfl h
  | cons c text => exact Nat.add_pos_left c.utf8Size_pos _

/-- Tokens of pieces lie behind one another. -/
theorem inOrder_tokensOf (h : Laid before ls) (hfront : start ≤ Text.byteSize before) :
    InOrder start (tokensOf lines before ls)
      (Text.byteSize (before ++ ls.flatMap Lexeme.text)) := by
  induction h generalizing start with
  | nil before =>
    rw [tokensOf, List.flatMap_nil, List.append_nil]
    exact hfront
  | @cons before l ls htext hkind htrivia hgarbage hrest ih =>
    have hpos := byteSize_pos htext
    have hsize := Text.byteSize_append before l.text
    rw [tokensOf, List.flatMap_cons, ← List.append_assoc]
    split
    · exact ih (by omega)
    · refine ⟨hfront, ?_, ih ?_⟩
      · show Text.byteSize before < Text.byteSize before + Text.byteSize l.text
        omega
      · show Text.byteSize before + Text.byteSize l.text ≤ _
        omega

/-- A token of laid out pieces covers one of them. -/
theorem exists_of_mem_tokensOf (h : Laid before ls) (ht : t ∈ tokensOf lines before ls) :
    (∃ front text after,
      t.span.Cuts (before ++ ls.flatMap Lexeme.text) front text after ∧ text ≠ []) ∧
      t.kind.isTrivia = false ∧ t.kind ≠ .braceOpen := by
  induction h with
  | nil before => exact absurd ht List.not_mem_nil
  | @cons before l ls htext hkind htrivia hgarbage hrest ih =>
    rw [List.flatMap_cons, ← List.append_assoc]
    rw [tokensOf] at ht
    split at ht
    · exact ih ht
    · rename_i hnot
      rcases List.mem_cons.mp ht with rfl | ht
      · refine ⟨⟨before, l.text, ls.flatMap Lexeme.text, ⟨rfl, rfl, ?_⟩, htext⟩, ?_, hkind⟩
        · exact (Text.byteSize_append before l.text).symm
        · exact Bool.eq_false_iff.mpr hnot
      · exact ih ht

/-- **What lies between tokens is complete trivia.**  `inside` is the trivia that
has been met since the last token, which ends where `front` ends. -/
theorem between_tokensOf {inside : Text} (h : Laid before ls) (hbefore : before = front ++ inside)
    (hrun : TriviaRun front inside (ls.flatMap Lexeme.text)) :
    ∀ gap ∈ stretches (Text.byteSize front) (tokensOf lines before ls)
        (Text.byteSize (before ++ ls.flatMap Lexeme.text)),
      ∃ b t a, gap.Cuts (before ++ ls.flatMap Lexeme.text) b t a ∧ TriviaRun b t a := by
  induction h generalizing front inside with
  | nil before =>
    intro gap hgap
    obtain rfl := List.mem_singleton.mp hgap
    subst hbefore
    refine ⟨front, inside, [], ⟨rfl, rfl, ?_⟩, hrun⟩
    rw [List.flatMap_nil, List.append_nil]
  | @cons before l ls htext hkind htrivia hgarbage hrest ih =>
    rw [List.flatMap_cons] at hrun ⊢
    rw [← List.append_assoc, tokensOf]
    split
    · rename_i hl
      have hsplit : before ++ l.text = front ++ (inside ++ l.text) := by
        rw [hbefore, List.append_assoc]
      exact ih hsplit (hrun.snoc (hbefore ▸ htrivia hl))
    · intro gap hgap
      rcases List.mem_cons.mp hgap with rfl | hgap
      · refine ⟨front, inside, l.text ++ ls.flatMap Lexeme.text, ⟨?_, rfl, ?_⟩, hrun⟩
        · rw [hbefore, List.append_assoc, List.append_assoc]
        · rw [← hbefore]
          rfl
      · -- behind a token a new stretch begins
        have hsplit : before ++ l.text = before ++ l.text ++ [] := (List.append_nil _).symm
        refine ih hsplit (.nil _) gap ?_
        rwa [Text.byteSize_append]

/-- A token of pieces does not start in front of them. -/
theorem le_start_of_mem_tokensOf (h : Laid before ls) (hu : u ∈ tokensOf lines before ls) :
    Text.byteSize before ≤ u.span.start :=
  (inOrder_tokensOf lines h le_rfl).start_le hu

/-- **Between two garbage tokens there is something else.** -/
theorem pairwise_garbage_tokensOf (h : Laid before ls) :
    (tokensOf lines before ls).Pairwise fun t u =>
      t.kind = .garbage → u.kind = .garbage → t.span.stop < u.span.start := by
  induction h with
  | nil before => exact .nil
  | @cons before l ls htext hkind htrivia hgarbage hrest ih =>
    rw [tokensOf]
    split
    · exact ih
    · refine .cons (fun u hu hl hukind => ?_) ih
      cases hrest with
      | nil => exact absurd hu List.not_mem_nil
      | @cons _ m ms hmtext hmkind hmtrivia hmgarbage hmrest =>
        have hm : m.kind ≠ .garbage := hgarbage hl m rfl
        have hpos := byteSize_pos hmtext
        have hsize := Text.byteSize_append (before ++ l.text) m.text
        have hstop : (token lines ⟨before, l⟩).span.stop = Text.byteSize (before ++ l.text) :=
          (Text.byteSize_append before l.text).symm
        have hbehind : ∀ u ∈ tokensOf lines (before ++ l.text ++ m.text) ms,
            (token lines ⟨before, l⟩).span.stop < u.span.start := by
          intro u hu
          have hle := le_start_of_mem_tokensOf lines hmrest hu
          omega
        rw [tokensOf] at hu
        split at hu
        · exact hbehind u hu
        · rcases List.mem_cons.mp hu with rfl | hu
          · exact absurd hukind hm
          · exact hbehind u hu

/-- Garbage tokens do not touch, in whatever order they are named. -/
theorem not_touching_tokensOf (h : Laid before ls) :
    ∀ t ∈ tokensOf lines before ls, ∀ u ∈ tokensOf lines before ls,
      t.kind = .garbage → u.kind = .garbage → t.span.stop ≠ u.span.start := by
  have horder := inOrder_tokensOf lines h le_rfl
  have hforward := (pairwise_garbage_tokensOf lines h).imp fun hlt ht hu => (hlt ht hu).ne
  refine List.Pairwise.forall_of_forall_of_flip (fun t ht _ _ => ?_) hforward ?_
  · exact (horder.start_lt_stop ht).ne'
  · refine horder.pairwise.imp_of_mem fun {t u} _ hu hlt _ _ => ?_
    have hu := horder.start_lt_stop hu
    omega

/-- **Pieces that are laid out give tokens that tile their text.** -/
theorem tiling_tokensOf (h : Laid [] ls) :
    Tiling (ls.flatMap Lexeme.text) (tokensOf lines [] ls) := by
  have horder := inOrder_tokensOf lines h (Nat.zero_le _)
  have hnil : ([] : Text) = [] ++ [] := rfl
  refine ⟨fun t ht => ?_, horder.pairwise, fun t ht => ?_, ?_, fun i hi => ?_, ?_⟩
  · exact (exists_of_mem_tokensOf lines h ht).1
  · exact (exists_of_mem_tokensOf lines h ht).2
  · exact between_tokensOf lines h hnil (.nil _)
  · exact horder.countP_eq_one (Nat.zero_le i) hi
  · exact not_touching_tokensOf lines h

theorem tiling_lex (source : Text) : Tiling source (lex source).tokens := by
  have hlaid : Laid [] (scan source) := laid_scan (Or.inl fun c hc => by cases hc)
  have htiling := tiling_tokensOf (.ofSource source) hlaid
  rwa [flatMap_text_scan, ← tokens_lex] at htiling

/-- **The tokens of a source tile it.**  Lexing takes longest matches of the
declared patterns; hence every byte of a source lies in one of its tokens, of
which none is trivia, or in complete trivia between them. -/
theorem lex_tiles_source :
    (∀ c t, LongestMatch (c :: t) (next c t).1) ∧
      ∀ source, (lex source).source = source ∧ Tiling source (lex source).tokens :=
  ⟨longestMatch_next, fun source => ⟨rfl, tiling_lex source⟩⟩

/-! ## Reading tokens of a source -/

/-- A span that cuts a text out of the source can be read. -/
theorem canRead_of_cuts {s : TokenStream} {span : Span} {before inside after : Text}
    (h : span.Cuts s.source before inside after) : s.canRead span := by
  rw [canRead, h.source_eq, h.start_eq, h.stop_eq, Text.byteSize_append, Text.slice?_append]
  rfl

theorem readable_lex (source : Text) : (lex source).Readable := by
  intro t ht
  obtain ⟨before, text, after, hcuts, -⟩ := (tiling_lex source).inside t ht
  exact canRead_of_cuts hcuts

/-- A token stops in front of one that comes later. -/
theorem stop_le_start_of_get? {source : Text} {j : Nat} (ht : (lex source).get? i = some t)
    (hu : (lex source).get? j = some u) (hij : i < j) : t.span.stop ≤ u.span.start := by
  obtain ⟨hi, rfl⟩ := List.getElem?_eq_some_iff.mp ht
  obtain ⟨hj, rfl⟩ := List.getElem?_eq_some_iff.mp hu
  exact (List.pairwise_iff_getElem.mp (tiling_lex source).ordered i j hi hj hij).2

theorem forward_lex (source : Text) : (lex source).Forward := by
  refine (tiling_lex source).ordered.imp_of_mem ?_
  intro t u _ hu htu
  have hforward := (readable_lex source).start_le_stop hu
  omega

end TokenStream
end GrammarAtlas
