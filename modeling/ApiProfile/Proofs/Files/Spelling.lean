import ApiProfile.Files.Store
/-!
# Spellings of a path

Two spellings of a path have the same parts, but they need not both lead to a file: with a slash or a dot
behind its name, a file is not found. We show that spellings which lead somewhere lead to the same place,
so of several spellings that lead to files all lead to the same content.
-/

namespace ApiProfile.FileStore

variable {store : FileStore} {p q : Path}

theorem eq_foldl_of_follow {place found : List String} {pieces : List String}
    (h : store.follow place pieces = some found) : found = pieces.foldl stepFrom place := by
  induction pieces generalizing place with
  | nil => exact (Option.some.inj h).symm
  | cons piece pieces ih =>
    unfold follow at h
    split at h
    · exact ih h
    · cases h

/-- Empty pieces and dots lead nowhere else. -/
theorem foldl_stepFrom_filter (place : List String) (pieces : List String) :
    (pieces.filter fun piece => piece ≠ "" ∧ piece ≠ ".").foldl stepFrom place = pieces.foldl stepFrom place := by
  induction pieces generalizing place with
  | nil => rfl
  | cons piece pieces ih =>
    by_cases h : piece = "" ∨ piece = "."
    · have hstays : stepFrom place piece = place := if_pos h
      rw [List.filter_cons_of_neg (by rcases h with rfl | rfl <;> simp), List.foldl_cons, ih, hstays]
    · rw [List.filter_cons_of_pos (by simpa using h), List.foldl_cons, List.foldl_cons, ih]

theorem foldl_stepFrom_parts (place : List String) (path : Path) :
    path.parts.names.foldl stepFrom place = path.pieces.foldl stepFrom place := by
  unfold Path.parts
  dsimp only
  split
  · rw [List.foldl_cons, show stepFrom place "." = place from if_pos (.inr rfl), foldl_stepFrom_filter]
  · exact foldl_stepFrom_filter place path.pieces

theorem place?_unique (hparts : p.parts = q.parts) {a b : List String} (ha : store.place? p = some a)
    (hb : store.place? q = some b) : a = b := by
  have hplace : ∀ {path : Path} {c : List String}, store.place? path = some c →
      c = path.parts.names.foldl stepFrom (if path.parts.absolute then [] else store.workingDirectory) := by
    intro path c hc
    unfold place? at hc
    split at hc
    · cases hc
    · rw [foldl_stepFrom_parts]
      exact eq_foldl_of_follow hc
  rw [hplace ha, hplace hb, hparts]

theorem file?_unique (hparts : p.parts = q.parts) {a b : ByteArray} (ha : store.file? p = some a)
    (hb : store.file? q = some b) : a = b := by
  have hentry : ∀ {path : Path} {content : ByteArray}, store.file? path = some content →
      ∃ place, store.place? path = some place ∧ store.at? place = some (.file content) := by
    intro path content h
    unfold file? at h
    split at h
    · rename_i found hfound
      cases h
      exact Option.bind_eq_some_iff.1 hfound
    · cases h
  obtain ⟨place, hp, hfilea⟩ := hentry ha
  obtain ⟨place', hq, hfileb⟩ := hentry hb
  cases place?_unique hparts hp hq
  rw [hfilea] at hfileb
  cases hfileb
  rfl

end ApiProfile.FileStore
