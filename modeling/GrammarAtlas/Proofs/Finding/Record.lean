import GrammarAtlas.Finding.Record
import GrammarAtlas.Proofs.Json.ReadBack

/-!
# Findings are read back

A finding is handed over as JSON and is the same on the other side, whatever its texts are
made of and however many paths and switches it has (`listOfJson_of_written`).  The names of
the fields are the only thing that the writer and the reader have to agree on; what the
fields hold is read back by the readers of their types.

State numbers have 32 bits.  The text of a larger one is read as a number, but not as a state.
-/

namespace GrammarAtlas
namespace Finding

open Json

/-- The states on the paths have numbers of 32 bits. -/
def StatesFit (f : Finding) : Prop := ∀ path ∈ f.paths, ∀ id ∈ path, id < stateLimit

instance (f : Finding) : Decidable f.StatesFit :=
  inferInstanceAs (Decidable (∀ path ∈ f.paths, ∀ id ∈ path, id < stateLimit))

/-- A written finding fills the fields of a record. -/
theorem readsBack (f : Finding) (hf : f.StatesFit) : ReadsBack reader f f.toJson := by
  have hrules : ReadsBack (list string) f.rules (writeList (f.rules.map writeString)) :=
    readsBack_list fun rule _ => readsBack_string rule
  have hpaths : ReadsBack (list (list stateId)) f.paths
      (writeList (f.paths.map fun path => writeList (path.map Text.decimal))) :=
    readsBack_list fun path hpath =>
      readsBack_list fun id hid => readsBack_stateId (hf path hpath id hid)
  have hswitches : ReadsBack (list boolean) f.pathsDisabled
      (writeList (f.pathsDisabled.map writeBool)) :=
    readsBack_list fun b _ => readsBack_boolean b
  refine readsBack_record _ ?_
  refine .member rfl (by decide) (Field.readsBack_of _ (readsBack_string f.message) _) ?_
  refine .member rfl (by decide) (Field.readsBack_of _ hrules _) ?_
  refine .member rfl (by decide) (Field.readsBack_of _ hpaths _) ?_
  exact .member rfl (by decide) (Field.readsBack_of _ hswitches _) .done

/-- **Findings survive JSON**, each by itself and all of them in a list. -/
theorem listOfJson_of_written (fs : List Finding) (hfs : ∀ f ∈ fs, f.StatesFit) :
    (∀ f ∈ fs, ofJson f.toJson = .ok f) ∧
      listOfJson (writeList (fs.map toJson)) = .ok fs :=
  ⟨fun f hf => whole_eq_ok (f.readsBack (hfs f hf)),
    whole_eq_ok (readsBack_list fun f hf => f.readsBack (hfs f hf))⟩

/-- A finding with all sorts of characters, the largest state and a switch too many, and one with
nothing in it. -/
theorem listOfJson_of_written_escapes :
    let fs : List Finding := [
      ⟨"\"é\\\x00\x08\n\x1f/\x7f😀".toList, ["a\tb".toList, []], [[0, 4294967295], []],
        [true, false, true]⟩, {}]
    (∀ f ∈ fs, f.StatesFit) ∧ (∀ f ∈ fs, ofJson f.toJson = .ok f) ∧
      listOfJson (writeList (fs.map toJson)) = .ok fs :=
  ⟨by decide, listOfJson_of_written _ (by decide)⟩

end Finding
end GrammarAtlas
