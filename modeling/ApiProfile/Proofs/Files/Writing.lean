import ApiProfile.Files.Store
import ApiProfile.Proofs.Table
import ApiProfile.Proofs.Text.Cut
import ApiProfile.Proofs.Text.Numeral
/-!
# Writing files

A file that is written under a name becomes what that name leads to, and nothing else changes: no other place, and
no place that a path leads to. Of files written one after another each is there at the end, unless one behind it
was written at the same place. Making directories changes no file.
-/

namespace ApiProfile

/-! ## The last name of a path -/

namespace Text

theorem getLast?_splitBy_append {separates : Char → Bool} {ys : List Char} (hys : ∀ c ∈ ys, separates c = false)
    (xs : List Char) : ∃ last, (splitBy separates (xs ++ ys)).getLast? = some (last ++ ys) := by
  induction xs with
  | nil =>
    rw [List.nil_append, splitBy_eq_splitOnP, List.splitOnP_eq_singleton hys]
    exact ⟨[], rfl⟩
  | cons c xs ih =>
    obtain ⟨last, hlast⟩ := ih
    rw [List.cons_append, splitBy]
    cases separates c with
    | true => exact ⟨last, by rw [List.getLast?_cons, hlast]; rfl⟩
    | false =>
      cases hpieces : splitBy separates (xs ++ ys) with
      | nil => exact absurd hpieces (splitBy_ne_nil _ _)
      | cons piece pieces =>
        rw [hpieces] at hlast
        cases pieces with
        | nil =>
          cases hlast
          exact ⟨c :: last, rfl⟩
        | cons next pieces =>
          rw [List.getLast?_cons_cons] at hlast
          exact ⟨last, by rw [List.getLast?_cons_cons, hlast]⟩

end Text

namespace Path

/-- The last piece of a path is a name: not empty, and neither `.` nor `..`. -/
def EndsInName (p : Path) : Prop :=
  ∃ name, p.pieces.getLast? = some name ∧ name ≠ "" ∧ name ≠ "." ∧ name ≠ ".."

theorem endsInName_of_ending {p : Path} {front : List Char} {ending : String}
    (h : p.text.toList = front ++ ending.toList) (hslash : '/' ∉ ending.toList) (hlength : 2 < ending.toList.length) :
    p.EndsInName := by
  have hwhole : ∀ c ∈ ending.toList, (c == '/') = false := fun c hc =>
    beq_false_of_ne fun heq => hslash (heq ▸ hc)
  obtain ⟨last, hlast⟩ := Text.getLast?_splitBy_append hwhole front
  refine ⟨String.ofList (last ++ ending.toList), ?_, ?_⟩
  · unfold pieces
    rw [h, List.getLast?_map, hlast]
    rfl
  · have hlong : ∀ short : String, short.toList.length ≤ 2 → String.ofList (last ++ ending.toList) ≠ short := by
      rintro short hshort rfl
      rw [String.toList_ofList, List.length_append] at hshort
      omega
    exact ⟨hlong _ (by decide), hlong _ (by decide), hlong _ (by decide)⟩

/-- The last name of a path has a dot, with the ending behind it. -/
def HasEnding (p : Path) (ending : String) : Prop :=
  ∃ name front, p.pieces.getLast? = some name ∧ Text.cutLast ['.'] name.toList = some (front, ending.toList)

theorem hasEnding_of_ending? {p : Path} {ending : String} (h : p.ending? = some ending) : p.HasEnding ending := by
  unfold ending? at h
  split at h
  · cases h
  · cases h
  · rename_i name _ hname
    split at h <;> cases h
    rename_i hcut
    exact ⟨name, _, hname, by rw [hcut, String.toList_ofList]⟩

theorem hasEnding_withEnding {ending : String} (hdot : '.' ∉ ending.toList) (hslash : '/' ∉ ending.toList) (p : Path) :
    p.withEnding ending = p ∨ (p.withEnding ending).HasEnding ending := by
  unfold withEnding
  dsimp only
  split
  · exact .inl rfl
  · refine .inr ?_
    have hwhole : ∀ c ∈ ".".toList ++ ending.toList, (c == '/') = false := fun c hc =>
      beq_false_of_ne fun heq => by simp_all
    obtain ⟨front, hfront⟩ := Text.getLast?_splitBy_append hwhole _
    refine ⟨String.ofList (front ++ (['.'] ++ ending.toList)), front, ?_, ?_⟩
    · unfold pieces
      rw [String.toList_append, String.toList_append, List.append_assoc, List.getLast?_map, hfront]
      rfl
    · have hinfix : ¬['.'] <:+: ending.toList := mt (List.singleton_infix_iff _ _).1 hdot
      have hhead : ∀ c ∈ ending.toList.head?, c ∉ ['.'] := fun c hc hmem => by
        rw [List.mem_singleton.1 hmem] at hc
        exact hdot (List.mem_of_mem_head? hc)
      rw [String.toList_ofList]
      exact Text.cutLast_of_not_infix nofun hhead hinfix

theorem HasEnding.endsInName {p : Path} {ending : String} (h : p.HasEnding ending) (hending : ending ≠ "") :
    p.EndsInName := by
  obtain ⟨name, front, hname, hcut⟩ := h
  have hnone : ending.toList = [] → False := fun h => hending (String.toList_eq_nil_iff.1 h)
  refine ⟨name, hname, ?_, ?_, ?_⟩
  · rintro rfl
    cases hcut
  · rintro rfl
    exact hnone (Prod.mk.inj (Option.some.inj hcut)).2.symm
  · rintro rfl
    exact hnone (Prod.mk.inj (Option.some.inj hcut)).2.symm

/-- A path in a directory ends as it does alone. -/
theorem exists_text_join (directory path : Path) :
    ∃ front, (directory.join path).text.toList = front ++ path.text.toList := by
  unfold join
  split
  · exact ⟨[], rfl⟩
  · split
    · exact ⟨_, String.toList_append⟩
    · exact ⟨_, String.toList_append⟩

end Path

namespace FileStore

variable {store : FileStore} {parent : List String} {name : String}

/-! ## One file more -/

/-- A directory is one because something lies below it, or because it was made. -/
theorem isPrefixOf_of_isDirectoryAt {place : List String} (h : store.isDirectoryAt place) :
    place.isPrefixOf store.workingDirectory ∨ store.entries.any fun e => place.isPrefixOf e.1 := by
  have hdirectory : store.at? place = some .directory := eq_of_beq h
  unfold at? at hdirectory
  split at hdirectory
  · rename_i entry hentry
    have hmem := Table.mem_of_lookup hentry
    exact .inr (List.any_eq_true.2 ⟨_, hmem, List.isPrefixOf_iff_prefix.2 (List.prefix_refl _)⟩)
  · split at hdirectory
    · assumption
    · cases hdirectory

/-- An entry in a directory is all that changes: what its place lies below has been a directory before. -/
theorem at?_put (hparent : store.isDirectoryAt parent) (name : String) (entry : FileEntry) (place : List String) :
    (store.put (parent ++ [name]) entry).at? place =
      if place = parent ++ [name] then some entry else store.at? place := by
  have hbelow : place ≠ parent ++ [name] → place.isPrefixOf (parent ++ [name]) →
      place.isPrefixOf store.workingDirectory ∨ store.entries.any fun e => place.isPrefixOf e.1 := by
    intro hne h
    have hbegins := (List.prefix_concat_iff.1 (List.isPrefixOf_iff_prefix.1 h)).resolve_left hne
    simp only [List.any_eq_true, List.isPrefixOf_iff_prefix]
    rcases isPrefixOf_of_isDirectoryAt hparent with hworking | hany
    · exact .inl (hbegins.trans (List.isPrefixOf_iff_prefix.1 hworking))
    · obtain ⟨e, he, hparent⟩ := List.any_eq_true.1 hany
      exact .inr ⟨e, he, hbegins.trans (List.isPrefixOf_iff_prefix.1 hparent)⟩
  unfold at? put
  dsimp only
  rw [List.lookup_cons, List.any_cons]
  by_cases hplace : place = parent ++ [name]
  · rw [if_pos hplace, hplace, BEq.rfl]
  · rw [if_neg hplace, beq_false_of_ne hplace]
    dsimp only
    cases store.entries.lookup place with
    | some entry => rfl
    | none =>
      have hsame := hbelow hplace
      dsimp only
      congr 1
      rw [Bool.or_eq_true]
      exact propext ⟨fun h => h.elim .inl fun h => h.elim hsame .inr, fun h => h.imp_right .inr⟩

theorem follow_congr {saved : FileStore} (h : ∀ place, saved.isDirectoryAt place = store.isDirectoryAt place)
    (place : List String) (pieces : List String) : saved.follow place pieces = store.follow place pieces := by
  induction pieces generalizing place with
  | nil => rfl
  | cons piece pieces ih => rw [follow, follow, h, ih]

theorem follow_concat (place : List String) (pieces : List String) (piece : String) :
    store.follow place (pieces ++ [piece]) = (store.follow place pieces).bind fun parent =>
      if store.isDirectoryAt parent then some (stepFrom parent piece) else none := by
  induction pieces generalizing place with
  | nil => rfl
  | cons first pieces ih =>
    rw [List.cons_append, follow, follow, ih]
    split <;> rfl

/-- A path that ends in a name leads to an entry of a directory. -/
theorem exists_parent_of_place? {path : Path} (hpath : path.EndsInName) {place : List String}
    (h : store.place? path = some place) :
    ∃ parent name, place = parent ++ [name] ∧ path.pieces.getLast? = some name ∧ store.isDirectoryAt parent := by
  obtain ⟨name, hname, hempty, hdot, hdots⟩ := hpath
  obtain ⟨pieces, hpieces⟩ := List.getLast?_eq_some_iff.1 hname
  unfold place? at h
  split at h
  · cases h
  · rw [hpieces, follow_concat] at h
    obtain ⟨parent, -, h⟩ := Option.bind_eq_some_iff.1 h
    split at h <;> cases h
    refine ⟨parent, name, ?_, hname, ‹_›⟩
    unfold stepFrom
    rw [if_neg (by simp [hempty, hdot]), if_neg hdots]

/-- Paths to one place have the same ending. -/
theorem ending_unique {p q : Path} {e e' : String} (hp : p.HasEnding e) (he : e ≠ "") (hq : q.HasEnding e')
    (he' : e' ≠ "") {place : List String} (hfirst : store.place? p = some place)
    (hsecond : store.place? q = some place) : e = e' := by
  obtain ⟨parent, name, rfl, hname, -⟩ := exists_parent_of_place? (hp.endsInName he) hfirst
  obtain ⟨parent', name', heq, hname', -⟩ := exists_parent_of_place? (hq.endsInName he') hsecond
  obtain ⟨-, rfl⟩ := List.append_singleton_inj.1 heq
  obtain ⟨_, front, hlast, hcut⟩ := hp
  obtain ⟨_, front', hlast', hcut'⟩ := hq
  cases hname.symm.trans hlast
  cases hname'.symm.trans hlast'
  exact String.toList_injective (Prod.mk.inj (Option.some.inj (hcut.symm.trans hcut'))).2

/-! ## Writing -/

/-- What writing a file under a path comes to: the file is at the place that the path leads to, and all else is as
before. -/
structure Wrote (path : Path) (content : ByteArray) (store saved : FileStore) : Prop where
  place : ∃ place, store.place? path = some place ∧
    ∀ other, saved.at? other = if other = place then some (.file content) else store.at? other
  places : ∀ other, saved.place? other = store.place? other

theorem wrote_of_write? {path : Path} (hpath : path.EndsInName) {content : ByteArray} {saved : FileStore}
    (h : store.write? path content = some saved) : Wrote path content store saved := by
  unfold write? at h
  split at h
  · cases h
  · rename_i place hplace
    split at h <;> cases h
    rename_i hfits
    obtain ⟨parent, name, rfl, -, hparent⟩ := exists_parent_of_place? hpath hplace
    have hat := at?_put hparent name (.file content)
    have hnew : store.isDirectoryAt (parent ++ [name]) = false := by
      simp only [Bool.or_eq_true, not_or, Bool.not_eq_true] at hfits
      exact hfits.1
    refine ⟨⟨_, hplace, hat⟩, fun other => ?_⟩
    have hdirectories : ∀ other,
        (store.put (parent ++ [name]) (.file content)).isDirectoryAt other = store.isDirectoryAt other := by
      intro other
      by_cases hother : other = parent ++ [name]
      · rw [hother, hnew]
        unfold isDirectoryAt
        rw [hat, if_pos rfl]
        rfl
      · unfold isDirectoryAt
        rw [hat, if_neg hother]
    unfold place?
    rw [follow_congr hdirectories]
    rfl

/-- A path leads to the content that was written, if it leads to where it was written, and else to what it led to. -/
theorem Wrote.file? {path : Path} {content : ByteArray} {saved : FileStore} (h : Wrote path content store saved)
    (other : Path) :
    saved.file? other = if store.place? other = store.place? path then some content else store.file? other := by
  obtain ⟨place, hplace, hat⟩ := h.place
  unfold FileStore.file? entry?
  rw [h.places, hplace]
  cases store.place? other with
  | none => rfl
  | some found =>
    rw [Option.bind_some, Option.bind_some, hat]
    by_cases hfound : found = place
    · rw [if_pos hfound, if_pos (by rw [hfound])]
    · rw [if_neg hfound, if_neg (by simpa using hfound)]

/-- Writes files one after another. -/
def writeAll? (store : FileStore) (files : List (Path × ByteArray)) : Option FileStore :=
  files.foldlM (fun store file => store.write? file.1 file.2) store

/-- Files that were written are there, as far as none was written over, and nothing else has changed. -/
theorem wrote_all {files : List (Path × ByteArray)} (hnames : ∀ file ∈ files, file.1.EndsInName) {saved : FileStore}
    (h : store.writeAll? files = some saved) :
    (∀ path, saved.place? path = store.place? path) ∧
    (∀ before file behind, files = before ++ file :: behind →
      (∀ later ∈ behind, saved.place? later.1 ≠ saved.place? file.1) → saved.file? file.1 = some file.2) ∧
    (∀ place, (∀ file ∈ files, saved.place? file.1 ≠ some place) → saved.at? place = store.at? place) := by
  induction files generalizing store with
  | nil =>
    cases h
    exact ⟨fun _ => rfl, fun before file behind hfiles => by simp at hfiles, fun _ _ => rfl⟩
  | cons first files ih =>
    obtain ⟨next, hnext, h⟩ := Option.bind_eq_some_iff.1 h
    have hwrote := wrote_of_write? (hnames first (.head files)) hnext
    obtain ⟨hplaces, hfiles, hothers⟩ := ih (fun file hfile => hnames file (.tail first hfile)) h
    refine ⟨fun path => (hplaces path).trans (hwrote.places path), ?_, ?_⟩
    · intro before file behind heq hbehind
      cases before with
      | cons _ before =>
        cases heq
        exact hfiles before file behind rfl hbehind
      -- the first file is left alone by those behind it
      | nil =>
        obtain ⟨rfl, rfl⟩ := List.cons.inj heq
        obtain ⟨place, hplace, hat⟩ := hwrote.place
        have hfirst : saved.place? first.1 = some place := by rw [hplaces, hwrote.places, hplace]
        have hleft := hothers place fun later hlater => hfirst ▸ hbehind later hlater
        unfold FileStore.file? entry?
        rw [hfirst, Option.bind_some, hleft, hat, if_pos rfl]
    · intro place hplace
      obtain ⟨written, hwritten, hat⟩ := hwrote.place
      have hne : place ≠ written := by
        rintro rfl
        exact hplace first (.head files) (by rw [hplaces, hwrote.places, hwritten])
      rw [hothers place fun file hfile => hplace file (.tail first hfile), hat, if_neg hne]

/-! ## Making directories -/

/-- A file is one because it was written. -/
theorem at?_eq_file_iff {place : List String} {content : ByteArray} :
    store.at? place = some (.file content) ↔ store.entries.lookup place = some (.file content) := by
  unfold at?
  split
  · rename_i entry hentry
    rw [hentry]
  · rename_i hentry
    rw [hentry]
    split <;> simp

theorem file_at_makeFrom {made : FileStore} {place : List String} {pieces : List String}
    (h : store.makeFrom place pieces = some made) (other : List String) (content : ByteArray) :
    made.at? other = some (.file content) ↔ store.at? other = some (.file content) := by
  induction pieces generalizing store place with
  | nil =>
    cases h
    rfl
  | cons piece pieces ih =>
    rw [makeFrom] at h
    split at h
    · cases h
    · exact ih h
    · rename_i hnone
      rw [ih h, at?_eq_file_iff, at?_eq_file_iff]
      unfold put
      dsimp only
      rw [List.lookup_cons]
      split
      · rename_i heq
        rw [eq_of_beq heq, ← at?_eq_file_iff, hnone]
        simp
      · rfl

theorem file_at_makeDirectories? {made : FileStore} {path : Path} (h : store.makeDirectories? path = some made)
    (place : List String) (content : ByteArray) :
    made.at? place = some (.file content) ↔ store.at? place = some (.file content) := by
  unfold makeDirectories? at h
  dsimp only at h
  split at h
  · cases h
  · rename_i upper hupper
    split at h
    · cases h
      exact file_at_makeFrom hupper place content
    · split at h
      · cases h
      · rw [file_at_makeFrom h, file_at_makeFrom hupper]

end FileStore
end ApiProfile
