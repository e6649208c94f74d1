import ApiProfile.Profile.Cache
import ApiProfile.Proofs.Fallible
import ApiProfile.Proofs.Files.Spelling
/-!
# What files are read as

A file that holds a text is read as that text, and a registry that is read from a file was read from
some text for the selection asked for. Two spellings of a path are read alike, unless one of them leads
to no file.
-/

namespace ApiProfile

/-- What is encoded as UTF-8 is read back. -/
theorem FileStore.readDocument_of_file {store : FileStore} {path : Path} {text : String}
    (h : store.file? path = some text.toUTF8) : store.readDocument path = .ok text := by
  have hdecoded : String.fromUTF8? text.toUTF8 = some text := dif_pos text.isValidUTF8
  unfold readDocument
  rw [h]
  dsimp only
  rw [hdecoded]

theorem labelled_eq_ok {α : Type} {path : Path} {answer : Except Failure α} {value : α} :
    labelled path answer = .ok value ↔ answer = .ok value := by
  cases answer with
  | ok found => rfl
  | error fault => exact ⟨nofun, nofun⟩

namespace Registry

theorem read_of_file {store : FileStore} {path : Path} {text : String} (selection : Selection)
    (h : store.file? path = some text.toUTF8) :
    Registry.read store path selection = labelled path (ofDocument selection text) := by
  unfold Registry.read
  rw [FileStore.readDocument_of_file h]
  rfl

theorem exists_document_of_read {store : FileStore} {path : Path} {selection : Selection} {r : Registry}
    (h : Registry.read store path selection = .ok r) : ∃ document, ofDocument selection document = .ok r := by
  obtain ⟨document, -, h⟩ := bind_eq_ok.1 h
  exact ⟨document, labelled_eq_ok.1 h⟩

end Registry

/-! ## Spellings -/

/-- Reads the text in a file; what is found wrong with the text is labelled with the file. -/
def FileStore.readAs {α : Type} (store : FileStore) (parse : String → Except Failure α) (path : Path) :
    Except Failure α := do
  labelled path (parse (← store.readDocument path))

/-- What one spelling of a path is read as, so is another one, if it leads to a file at all. -/
theorem FileStore.readAs_spelling {α : Type} {store : FileStore} {parse : String → Except Failure α}
    {p q : Path} (hparts : p.parts = q.parts) {value : α} (h : store.readAs parse p = .ok value) :
    store.isFile p = true ∧ (store.readAs parse q = .ok value ∨
      store.isFile q = false ∧ store.readAs parse q = .error (.documentNotFound q)) := by
  obtain ⟨text, htext, hparse⟩ := bind_eq_ok.1 h
  rw [labelled_eq_ok] at hparse
  unfold readDocument at htext
  split at htext
  · cases htext
  · rename_i content hp
    split at htext
    · rename_i hdecoded
      cases htext
      refine ⟨by rw [isFile, hp]; rfl, ?_⟩
      unfold readAs readDocument isFile
      cases hq : store.file? q with
      | none => exact .inr ⟨rfl, rfl⟩
      | some content' =>
        cases file?_unique hparts hp hq
        refine .inl ?_
        dsimp only
        rw [hdecoded]
        exact labelled_eq_ok.2 hparse
    · cases htext

theorem FileStore.readAs_unique {α : Type} {store : FileStore} {parse : String → Except Failure α} {p q : Path}
    (hparts : p.parts = q.parts) {a b : α} (ha : store.readAs parse p = .ok a) (hb : store.readAs parse q = .ok b) :
    a = b := by
  rcases (readAs_spelling hparts ha).2 with h | ⟨-, h⟩ <;> rw [hb] at h <;> cases h
  rfl

end ApiProfile
