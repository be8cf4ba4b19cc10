import GrammarAtlas.Proofs.Lexeme.Replace
import GrammarAtlas.Proofs.Token.Placed

/-!
# What lexing reports

Like the tokens, the reports come piece by piece: garbage is reported with its text, a
block without its closing brace at its opening one (`lexDiagnostics_eq`).  So there is
nothing to report just when every piece is sound (`reports_eq_nil_iff`), and the kinds of
the reports tell which pieces are not.
-/

namespace GrammarAtlas

namespace PlacedLexeme

/-- What is reported about the piece. -/
def reports (p : PlacedLexeme) : Diagnostics :=
  if p.lexeme.kind = .garbage then
    [.report .unexpectedCharacter (some p.span)
      (some ("`".toList ++ p.lexeme.text ++ "`".toList))]
  else if p.lexeme.kind = .block ∧ isClosed p.lexeme.text = false then
    [.report .unterminatedBlock (some ⟨p.span.start, p.span.start + 1⟩) none]
  else []

theorem isClosed_eq (text : Text) : isClosed text = (Block.cut 0 none text.tail).closed := by
  cases text <;> rfl

/-- **Nothing is reported about a piece** just when it is sound. -/
theorem reports_eq_nil_iff (p : PlacedLexeme) : p.reports = [] ↔ p.lexeme.Sound := by
  rw [reports, isClosed_eq, Lexeme.Sound]
  split_ifs with hgarbage hopen
  · simp [hgarbage]
  · simp [hopen]
  · rw [not_and, Bool.not_eq_false] at hopen
    exact iff_of_true rfl ⟨hgarbage, hopen⟩

/-- Garbage is reported as such. -/
theorem reports_of_garbage {p : PlacedLexeme} (h : p.lexeme.kind = .garbage) :
    ∃ d ∈ p.reports, d.kind = .unexpectedCharacter := by
  rw [reports, if_pos h]
  exact ⟨_, List.mem_cons_self, rfl⟩

theorem map_lexeme_place (before : Text) (ls : List Lexeme) :
    (place before ls).map (·.lexeme) = ls := by
  induction ls generalizing before with
  | nil => rfl
  | cons l ls ih => rw [place, List.map_cons, ih]

theorem exists_mem_place {l : Lexeme} {ls : List Lexeme} (before : Text) (h : l ∈ ls) :
    ∃ p ∈ place before ls, p.lexeme = l := by
  rw [← map_lexeme_place before ls] at h
  exact List.mem_map.mp h

end PlacedLexeme

namespace TokenStream

open Lexeme PlacedLexeme

variable {source before after : Text} {l : Lexeme} {ls : List Lexeme}

/-- Of what a piece of the source emits, these are the reports. -/
theorem filterMap_report?_emitted (h : source = before ++ l.text ++ after) (lines : LineIndex) :
    (emitted source lines ⟨before, l⟩).filterMap (·.report?) = reports ⟨before, l⟩ := by
  have hslice : source.slice? (Text.byteSize before)
      (Text.byteSize before + Text.byteSize l.text) = some l.text := by
    rw [h, Text.slice?_append]
  unfold emitted reports
  by_cases hgarbage : l.kind = .garbage
  · simp only [if_pos hgarbage, Emission.garbage, span, hslice]
    rfl
  · simp only [if_neg hgarbage]
    by_cases hblock : l.kind = .block
    · simp only [hblock, if_true, true_and, Emission.block, List.filterMap_append]
      cases isClosed l.text <;> rfl
    · simp only [hblock, if_false, false_and]
      split <;> rfl

theorem filterMap_report?_flatMap (lines : LineIndex)
    (h : source = before ++ ls.flatMap Lexeme.text) :
    ((place before ls).flatMap (emitted source lines)).filterMap (·.report?) =
      (place before ls).flatMap reports := by
  induction ls generalizing before with
  | nil => rfl
  | cons l ls ih =>
    rw [List.flatMap_cons, ← List.append_assoc] at h
    rw [place, List.flatMap_cons, List.filterMap_append, filterMap_report?_emitted h, ih h,
      List.flatMap_cons]

/-- **What lexing reports is what is reported about the pieces.** -/
theorem lexDiagnostics_eq (source : Text) :
    lexDiagnostics source = (place [] (scan source)).flatMap reports := by
  rw [lexDiagnostics, emissions_eq]
  exact filterMap_report?_flatMap _ (flatMap_text_scan source).symm

/-- Where nothing is reported, nothing is wrong. -/
theorem sound_of_lexDiagnostics (h : lexDiagnostics source = []) : ∀ l ∈ scan source, Sound l := by
  intro l hl
  obtain ⟨p, hp, rfl⟩ := exists_mem_place [] hl
  rw [lexDiagnostics_eq] at h
  exact (reports_eq_nil_iff p).mp (List.flatMap_eq_nil_iff.mp h p hp)

/-- Where nothing is wrong, nothing is reported. -/
theorem lexDiagnostics_eq_nil (h : ∀ l ∈ scan source, Sound l) : lexDiagnostics source = [] := by
  rw [lexDiagnostics_eq]
  refine List.flatMap_eq_nil_iff.mpr fun p hp => (reports_eq_nil_iff p).mpr (h p.lexeme ?_)
  have hmem := List.mem_map_of_mem (f := PlacedLexeme.lexeme) hp
  rwa [map_lexeme_place] at hmem

/-- Where no garbage is reported, there is none. -/
theorem kind_ne_garbage_of_lexDiagnostics
    (h : ∀ d ∈ lexDiagnostics source, d.kind ≠ .unexpectedCharacter) :
    ∀ l ∈ scan source, l.kind ≠ .garbage := by
  intro l hl hgarbage
  obtain ⟨p, hp, rfl⟩ := exists_mem_place [] hl
  obtain ⟨d, hd, hkind⟩ := reports_of_garbage hgarbage
  refine h d ?_ hkind
  rw [lexDiagnostics_eq]
  exact List.mem_flatMap.mpr ⟨p, hp, hd⟩

end TokenStream
end GrammarAtlas
