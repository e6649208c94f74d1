import ApiProfile.Proofs.Fallible
import ApiProfile.Proofs.Table
import ApiProfile.Proofs.Text.Words
import ApiProfile.TypeTable
import Mathlib.Data.List.Induction
/-!
# Which texts are type tables

The rows of a table are read one by one, and each is checked against the names that are there already. We say
without a table at hand what makes a row good behind other rows, and with what it fails otherwise. A text is a type
table exactly if all its rows are good, and then it has the entries that its rows make one by one; so neither the
order of rows nor blank lines and comments count (`parse_written`).
-/

namespace ApiProfile.TypeTable

/-! ## Rows -/

/-- What stands before the comment of a line. -/
def beforeComment (line : List Char) : List Char :=
  line.takeWhile (· ≠ '#')

/-- A line that is more than blanks and a comment. -/
def isRow (line : List Char) : Bool :=
  (beforeComment line).any fun c => !Text.isBlank c

/-- A row without its comment, and the number of its line. -/
structure WrittenRow where
  line : Nat
  text : List Char

/-- The rows among lines, the first of which has the given number. -/
def rowsFrom (first : Nat) (lines : List (List Char)) : List WrittenRow :=
  ((lines.zipIdx first).filter fun (line, _) => isRow line).map fun (line, number) => ⟨number, beforeComment line⟩

/-- The rows of a text, whose lines are counted from 1. A carriage return that ends the text is part of its last line,
and there it makes a piece behind a comma. -/
def writtenRows (text : String) : List WrittenRow :=
  rowsFrom 1 (Text.lines text.toList)

/-- The pieces of a row between commas that are not empty. -/
def pieces (row : List Char) : List (List Char) :=
  (row.splitOn ',').filter (· ≠ [])

/-- The type in a piece. -/
def typeOf (piece : List Char) : Except Failure CType :=
  CType.parse (String.ofList (Text.trim piece))

/-- The entry that a row makes: of two types, the first of which is not indirected. -/
def kept? (row : List Char) : Option (String × CType) :=
  match pieces row with
  | [left, right] =>
    match typeOf left, typeOf right with
    | .ok source, .ok target => if source.depth = 0 then some (source.base, target) else none
    | _, _ => none
  | _ => none

/-- A row that can stand behind other rows: it is passed over, or makes an entry for a name that none of them has. -/
inductive Good (earlier : List WrittenRow) (row : WrittenRow) : Prop
  | skipped {left right : List Char} {source : CType} (hpieces : pieces row.text = [left, right])
      (hleft : typeOf left = .ok source) (hdepth : source.depth ≠ 0)
  | kept {left right : List Char} {source target : CType} (hpieces : pieces row.text = [left, right])
      (hleft : typeOf left = .ok source) (hdepth : source.depth = 0) (hright : typeOf right = .ok target)
      (hnew : ∀ r ∈ earlier, ∀ other, kept? r.text ≠ some (source.base, other))

/-- What a row fails with behind other rows. -/
inductive FailsWith (earlier : List WrittenRow) (row : WrittenRow) : Failure → Prop
  | columns (h : (pieces row.text).length ≠ 2) :
      FailsWith earlier row (.malformedRow row.line (pieces row.text).length)
  | left {left right : List Char} {cause : Failure} (hpieces : pieces row.text = [left, right])
      (hleft : typeOf left = .error cause) : FailsWith earlier row (.atLine row.line cause)
  | right {left right : List Char} {source : CType} {cause : Failure} (hpieces : pieces row.text = [left, right])
      (hleft : typeOf left = .ok source) (hdepth : source.depth = 0) (hright : typeOf right = .error cause) :
      FailsWith earlier row (.atLine row.line cause)
  | repeated {name : String} {target other : CType} {first : WrittenRow} (hrow : kept? row.text = some (name, target))
      (hfirst : first ∈ earlier) (hsame : kept? first.text = some (name, other)) :
      FailsWith earlier row (.duplicateRow name row.line first.line)

/-- Each row is good behind those before it. -/
def AllGood (rows : List WrittenRow) : Prop :=
  ∀ before row after, rows = before ++ row :: after → Good before row

theorem kept?_of_pieces {row left right : List Char} {source target : CType} (hpieces : pieces row = [left, right])
    (hleft : typeOf left = .ok source) (hdepth : source.depth = 0) (hright : typeOf right = .ok target) :
    kept? row = some (source.base, target) := by
  unfold kept?
  rw [hpieces]
  dsimp only
  rw [hleft, hright]
  exact if_pos hdepth

theorem kept?_eq_none {row left right : List Char} {source : CType} (hpieces : pieces row = [left, right])
    (hleft : typeOf left = .ok source) (hdepth : source.depth ≠ 0) : kept? row = none := by
  unfold kept?
  rw [hpieces]
  dsimp only
  rw [hleft]
  cases typeOf right with
  | error cause => rfl
  | ok target => exact if_neg hdepth

theorem pieces_of_kept? {row : List Char} {name : String} {target : CType} (h : kept? row = some (name, target)) :
    ∃ left right source, pieces row = [left, right] ∧ typeOf left = .ok source ∧ source.depth = 0 ∧
      source.base = name ∧ typeOf right = .ok target := by
  unfold kept? at h
  split at h
  · rename_i left right hpieces
    split at h
    · rename_i source target' hleft hright
      split at h
      · rename_i hdepth
        cases h
        exact ⟨left, right, source, hpieces, hleft, hdepth, rfl, hright⟩
      · cases h
    · cases h
  · cases h

theorem good_or_fails (earlier : List WrittenRow) (row : WrittenRow) :
    Good earlier row ∨ ∃ fault, FailsWith earlier row fault := by
  by_cases hlength : (pieces row.text).length = 2
  · obtain ⟨left, right, hpieces⟩ := List.length_eq_two.1 hlength
    cases hleft : typeOf left with
    | error cause => exact .inr ⟨_, .left hpieces hleft⟩
    | ok source =>
      by_cases hdepth : source.depth = 0
      · cases hright : typeOf right with
        | error cause => exact .inr ⟨_, .right hpieces hleft hdepth hright⟩
        | ok target =>
          by_cases hnew : ∀ r ∈ earlier, ∀ other, kept? r.text ≠ some (source.base, other)
          · exact .inl (.kept hpieces hleft hdepth hright hnew)
          · push Not at hnew
            obtain ⟨first, hfirst, other, hsame⟩ := hnew
            exact .inr ⟨_, .repeated (kept?_of_pieces hpieces hleft hdepth hright) hfirst hsame⟩
      · exact .inl (.skipped hpieces hleft hdepth)
  · exact .inr ⟨_, .columns hlength⟩

/-! ## One row after another -/

/-- Takes in a row. -/
def takeRow (rows : Table Row) (row : WrittenRow) : Except Failure (Table Row) :=
  addRow rows row.line (columns row.text)

/-- The rows that were taken in have left their entries, with the numbers of their lines, and nothing else is there. -/
def Holds (taken : List WrittenRow) (rows : Table Row) : Prop :=
  rows.entries.Perm (taken.filterMap fun row => (kept? row.text).map fun (name, target) => (name, ⟨target, row.line⟩))

theorem holds_nil : Holds [] .empty := .refl _

theorem Holds.get?_eq_some {taken : List WrittenRow} {rows : Table Row} (h : Holds taken rows) {name : String}
    {entry : Row} :
    rows.get? name = some entry ↔
      ∃ row ∈ taken, kept? row.text = some (name, entry.target) ∧ row.line = entry.line := by
  rw [← Table.mem_entries_iff, List.Perm.mem_iff h, List.mem_filterMap]
  refine exists_congr fun row => and_congr_right fun _ => ?_
  rw [Option.map_eq_some_iff]
  constructor
  · rintro ⟨⟨name', target⟩, hentry, heq⟩
    cases heq
    exact ⟨hentry, rfl⟩
  · rintro ⟨hentry, hline⟩
    exact ⟨_, hentry, by rw [hline]⟩

theorem columns_eq (row : List Char) : columns row = (pieces row).map Text.trim := by
  unfold columns pieces
  rw [Text.splitBy_eq_splitOnP, ← List.splitOn_eq_splitOnP]

theorem parseColumn_of_ok {piece : List Char} {type : CType} (h : typeOf piece = .ok type) (line : Nat) :
    parseColumn line (Text.trim piece) = .ok type := by
  unfold parseColumn
  rw [show CType.parse (String.ofList (Text.trim piece)) = _ from h]

theorem parseColumn_of_error {piece : List Char} {cause : Failure} (h : typeOf piece = .error cause) (line : Nat) :
    parseColumn line (Text.trim piece) = .error (.atLine line cause) := by
  unfold parseColumn
  rw [show CType.parse (String.ofList (Text.trim piece)) = _ from h]

theorem addRow_of_length {columns : List (List Char)} (h : columns.length ≠ 2) (rows : Table Row) (line : Nat) :
    addRow rows line columns = .error (.malformedRow line columns.length) := by
  match columns, h with
  | [], _ | [_], _ | _ :: _ :: _ :: _, _ => rfl
  | [_, _], h => exact absurd rfl h

/-- Takes in a row with two pieces. -/
theorem takeRow_of_pieces {row : WrittenRow} {left right : List Char} (hpieces : pieces row.text = [left, right])
    (rows : Table Row) :
    takeRow rows row = parseColumn row.line (Text.trim left) >>= fun source =>
      if source.depth ≠ 0 then .ok rows
      else parseColumn row.line (Text.trim right) >>= fun target =>
        match rows.get? source.base with
        | some first => .error (.duplicateRow source.base row.line first.line)
        | none => .ok (rows.insert source.base ⟨target, row.line⟩) := by
  unfold takeRow
  rw [columns_eq, hpieces]
  rfl

/-- A row whose left type is not indirected goes on with the right one. -/
theorem takeRow_of_left {row : WrittenRow} {left right : List Char} {source : CType}
    (hpieces : pieces row.text = [left, right]) (hleft : typeOf left = .ok source) (hdepth : source.depth = 0)
    (rows : Table Row) :
    takeRow rows row = parseColumn row.line (Text.trim right) >>= fun target =>
      match rows.get? source.base with
      | some first => .error (.duplicateRow source.base row.line first.line)
      | none => .ok (rows.insert source.base ⟨target, row.line⟩) := by
  rw [takeRow_of_pieces hpieces, parseColumn_of_ok hleft]
  exact if_neg (not_not.2 hdepth)

theorem takeRow_of_good {taken : List WrittenRow} {rows : Table Row} {row : WrittenRow} (h : Holds taken rows)
    (hgood : Good taken row) : ∃ rows', takeRow rows row = .ok rows' ∧ Holds (taken ++ [row]) rows' := by
  unfold Holds
  cases hgood with
  | @skipped left right source hpieces hleft hdepth =>
    have hnone := kept?_eq_none hpieces hleft hdepth
    refine ⟨rows, ?_, ?_⟩
    · rw [takeRow_of_pieces hpieces, parseColumn_of_ok hleft]
      exact if_pos hdepth
    · rw [List.filterMap_append, List.filterMap_cons, hnone]
      exact (List.append_nil _).symm ▸ h
  | @kept left right source target hpieces hleft hdepth hright hnew =>
    have hentry := kept?_of_pieces hpieces hleft hdepth hright
    have hfree : rows.get? source.base = none := by
      rw [Option.eq_none_iff_forall_ne_some]
      intro entry hget
      obtain ⟨first, hfirst, hsame, -⟩ := h.get?_eq_some.1 hget
      exact hnew first hfirst _ hsame
    refine ⟨rows.insert source.base ⟨target, row.line⟩, ?_, ?_⟩
    · rw [takeRow_of_left hpieces hleft hdepth, parseColumn_of_ok hright, hfree]
      rfl
    · have hperm := (Table.perm_insert hfree ⟨target, row.line⟩).trans (List.Perm.cons _ h)
      refine hperm.trans ?_
      rw [List.filterMap_append, List.filterMap_cons, hentry]
      exact (List.perm_append_singleton _ _).symm

theorem takeRow_of_fails {taken : List WrittenRow} {rows : Table Row} {row : WrittenRow} {fault : Failure}
    (h : Holds taken rows) (hfails : FailsWith taken row fault) : takeRow rows row = .error fault := by
  cases hfails with
  | columns hlength =>
    unfold takeRow
    rw [columns_eq, addRow_of_length (by rwa [List.length_map]), List.length_map]
  | left hpieces hleft =>
    rw [takeRow_of_pieces hpieces, parseColumn_of_error hleft]
    rfl
  | right hpieces hleft hdepth hright =>
    rw [takeRow_of_left hpieces hleft hdepth, parseColumn_of_error hright]
    rfl
  | @repeated name target other first hrow hfirst hsame =>
    obtain ⟨left, right, source, hpieces, hleft, hdepth, rfl, hright⟩ := pieces_of_kept? hrow
    have hget : rows.get? source.base = some ⟨other, first.line⟩ := h.get?_eq_some.2 ⟨first, hfirst, hsame, rfl⟩
    rw [takeRow_of_left hpieces hleft hdepth, parseColumn_of_ok hright, hget]
    rfl

/-! ## All rows -/

theorem allGood_nil : AllGood [] := fun before row after h => by
  simp at h

theorem allGood_concat {rows : List WrittenRow} {row : WrittenRow} :
    AllGood (rows ++ [row]) ↔ AllGood rows ∧ Good rows row := by
  constructor
  · intro h
    refine ⟨fun before r after hrows => ?_, h rows row [] rfl⟩
    exact h before r (after ++ [row]) (by rw [hrows, List.append_assoc, List.cons_append])
  · rintro ⟨hrows, hrow⟩ before r after hall
    rcases List.eq_nil_or_concat after with rfl | ⟨more, last, rfl⟩
    · obtain ⟨rfl, hlast⟩ := List.append_inj' hall rfl
      cases hlast
      exact hrow
    · rw [List.concat_eq_append, ← List.cons_append, ← List.append_assoc] at hall
      exact hrows before r more (List.append_inj' hall rfl).1

/-- Rows are all good, or one of them is the first that is not. The induction adds rows at the end, since a row is
good or not by what stands before it. -/
theorem allGood_or_fails (rows : List WrittenRow) :
    AllGood rows ∨ ∃ before row after fault, rows = before ++ row :: after ∧ AllGood before ∧
      FailsWith before row fault := by
  induction rows using List.reverseRecOn with
  | nil => exact .inl allGood_nil
  | append_singleton rows row ih =>
    rcases ih with hrows | ⟨before, r, after, fault, rfl, hbefore, hfails⟩
    · rcases good_or_fails rows row with hrow | ⟨fault, hfails⟩
      · exact .inl (allGood_concat.2 ⟨hrows, hrow⟩)
      · exact .inr ⟨rows, row, [], fault, rfl, hrows, hfails⟩
    · exact .inr ⟨before, r, after ++ [row], fault, by simp, hbefore, hfails⟩

/-- Rows that are all good are taken in, and the table then holds them: that is what the next row is checked against. -/
theorem foldlM_of_allGood {rows : List WrittenRow} (h : AllGood rows) :
    ∃ taken, rows.foldlM takeRow .empty = .ok taken ∧ Holds rows taken := by
  induction rows using List.reverseRecOn with
  | nil => exact ⟨.empty, rfl, holds_nil⟩
  | append_singleton rows row ih =>
    obtain ⟨hrows, hrow⟩ := allGood_concat.1 h
    obtain ⟨taken, htaken, hholds⟩ := ih hrows
    obtain ⟨all, hall, hholdsAll⟩ := takeRow_of_good hholds hrow
    refine ⟨all, ?_, hholdsAll⟩
    rw [List.foldlM_append, htaken]
    exact bind_eq_ok.2 ⟨taken, rfl, bind_eq_ok.2 ⟨all, hall, rfl⟩⟩

theorem foldlM_of_fails {before after : List WrittenRow} {row : WrittenRow} {fault : Failure} (h : AllGood before)
    (hfails : FailsWith before row fault) : (before ++ row :: after).foldlM takeRow .empty = .error fault := by
  obtain ⟨taken, htaken, hholds⟩ := foldlM_of_allGood h
  rw [List.foldlM_append, htaken]
  exact bind_eq_error.2 (.inr ⟨taken, rfl, bind_eq_error.2 (.inl (takeRow_of_fails hholds hfails))⟩)

/-! ## Lines -/

theorem isRow_eq_false_iff {line : List Char} : isRow line = false ↔ Text.trim (beforeComment line) = [] := by
  rw [Text.trim_eq_nil_iff]
  unfold isRow
  simp

theorem rowsFrom_cons (first : Nat) (line : List Char) (lines : List (List Char)) :
    rowsFrom first (line :: lines) =
      if isRow line then ⟨first, beforeComment line⟩ :: rowsFrom (first + 1) lines else rowsFrom (first + 1) lines := by
  unfold rowsFrom
  rw [List.zipIdx_cons]
  cases h : isRow line <;> simp [h]

theorem addLines_eq (rows : Table Row) (first : Nat) (lines : List (List Char)) :
    addLines rows first lines = (rowsFrom first lines).foldlM takeRow rows := by
  induction lines generalizing rows first with
  | nil => rfl
  | cons line lines ih =>
    have hline : line.takeWhile (· ≠ '#') = beforeComment line := rfl
    rw [addLines, rowsFrom_cons, hline]
    cases hrow : isRow line with
    | false =>
      rw [if_pos (isRow_eq_false_iff.1 hrow), ih]
      rfl
    | true =>
      have hwritten : Text.trim (beforeComment line) ≠ [] := fun hblank => by
        rw [isRow_eq_false_iff.2 hblank] at hrow
        cases hrow
      rw [if_neg hwritten, if_pos rfl, List.foldlM_cons]
      have htake : takeRow rows ⟨first, beforeComment line⟩ = addRow rows first (columns (beforeComment line)) := rfl
      rw [htake]
      cases addRow rows first (columns (beforeComment line)) with
      | error fault => rfl
      | ok more => exact ih more (first + 1)

theorem parse_eq (text : String) :
    parse text = ((writtenRows text).foldlM takeRow .empty).map fun rows => ⟨rows.map (·.target)⟩ := by
  unfold parse writtenRows
  rw [addLines_eq]
  cases List.foldlM takeRow .empty (rowsFrom 1 (Text.lines text.toList)) <;> rfl

/-- The texts of the rows are those of the lines that are rows. -/
theorem texts_rowsFrom (first : Nat) (lines : List (List Char)) :
    (rowsFrom first lines).map (·.text) = (lines.filter isRow).map beforeComment := by
  induction lines generalizing first with
  | nil => rfl
  | cons line lines ih =>
    rw [rowsFrom_cons, List.filter_cons]
    split
    · rw [List.map_cons, List.map_cons, ih]
    · exact ih (first + 1)

/-! ## The order of rows -/

/-- A row that is passed over or makes an entry. -/
def Readable (row : List Char) : Prop :=
  ∃ left right source, pieces row = [left, right] ∧ typeOf left = .ok source ∧
    (source.depth ≠ 0 ∨ ∃ target, typeOf right = .ok target)

/-- The names of the entries that rows make. -/
def names (rows : List (List Char)) : List String :=
  (rows.filterMap kept?).map (·.1)

theorem mem_names {rows : List (List Char)} {name : String} :
    name ∈ names rows ↔ ∃ row ∈ rows, ∃ target, kept? row = some (name, target) := by
  unfold names
  rw [List.mem_map]
  constructor
  · rintro ⟨⟨_, target⟩, hentry, rfl⟩
    obtain ⟨row, hrow, h⟩ := List.mem_filterMap.1 hentry
    exact ⟨row, hrow, target, h⟩
  · rintro ⟨row, hrow, target, h⟩
    exact ⟨_, List.mem_filterMap.2 ⟨row, hrow, h⟩, rfl⟩

theorem names_append (rows more : List (List Char)) : names (rows ++ more) = names rows ++ names more := by
  unfold names
  rw [List.filterMap_append, List.map_append]

theorem nodup_names_singleton (row : List Char) : (names [row]).Nodup := by
  unfold names
  cases h : kept? row <;> simp [h]

theorem good_iff {earlier : List WrittenRow} {row : WrittenRow} :
    Good earlier row ↔ Readable row.text ∧ ∀ name ∈ names (earlier.map (·.text)), name ∉ names [row.text] := by
  have hown : ∀ {name}, name ∈ names [row.text] ↔ ∃ target, kept? row.text = some (name, target) := by
    simp [mem_names]
  constructor
  · rintro (⟨hpieces, hleft, hdepth⟩ | ⟨hpieces, hleft, hdepth, hright, hnew⟩)
    · refine ⟨⟨_, _, _, hpieces, hleft, .inl hdepth⟩, fun name _ hname => ?_⟩
      obtain ⟨target, hentry⟩ := hown.1 hname
      rw [kept?_eq_none hpieces hleft hdepth] at hentry
      cases hentry
    · refine ⟨⟨_, _, _, hpieces, hleft, .inr ⟨_, hright⟩⟩, fun name hearlier hname => ?_⟩
      obtain ⟨target, hentry⟩ := hown.1 hname
      rw [kept?_of_pieces hpieces hleft hdepth hright] at hentry
      cases hentry
      obtain ⟨text, htext, other, hother⟩ := mem_names.1 hearlier
      obtain ⟨r, hr, rfl⟩ := List.mem_map.1 htext
      exact hnew r hr other hother
  · rintro ⟨⟨left, right, source, hpieces, hleft, hdepth⟩, hnew⟩
    by_cases hzero : source.depth = 0
    · obtain ⟨target, hright⟩ := hdepth.resolve_left (not_not.2 hzero)
      refine .kept hpieces hleft hzero hright fun r hr other hother => ?_
      exact hnew source.base (mem_names.2 ⟨r.text, List.mem_map_of_mem hr, other, hother⟩)
        (hown.2 ⟨target, kept?_of_pieces hpieces hleft hzero hright⟩)
    · exact .skipped hpieces hleft hzero

/-- Whether all rows are good does not depend on their order. -/
theorem allGood_iff {rows : List WrittenRow} :
    AllGood rows ↔ (∀ row ∈ rows.map (·.text), Readable row) ∧ (names (rows.map (·.text))).Nodup := by
  induction rows using List.reverseRecOn with
  | nil => exact ⟨fun _ => ⟨nofun, .nil⟩, fun _ => allGood_nil⟩
  | append_singleton rows row ih =>
    rw [allGood_concat, ih, good_iff, List.map_append, List.map_singleton, names_append, List.nodup_append,
      List.forall_mem_append, List.forall_mem_singleton]
    have hsingle := nodup_names_singleton row.text
    constructor
    · rintro ⟨⟨hrows, hnodup⟩, hrow, hnew⟩
      exact ⟨⟨hrows, hrow⟩, hnodup, hsingle, fun name hname own hown heq => hnew name hname (heq ▸ hown)⟩
    · rintro ⟨⟨hrows, hrow⟩, hnodup, -, hnew⟩
      exact ⟨⟨hrows, hnodup⟩, hrow, fun name hname hown => hnew name hname name hown rfl⟩

/-! ## Texts -/

theorem perm_texts {lines other extra : List (List Char)} (hextra : ∀ line ∈ extra, isRow line = false)
    (h : other.Perm (extra ++ lines)) :
    ((rowsFrom 1 other).map (·.text)).Perm ((rowsFrom 1 lines).map (·.text)) := by
  have hnone : extra.filter isRow = [] := List.filter_eq_nil_iff.2 fun line hline => by simp [hextra line hline]
  have hrows := (h.filter isRow).map beforeComment
  rw [List.filter_append, hnone, List.nil_append] at hrows
  rw [texts_rowsFrom, texts_rowsFrom]
  exact hrows

theorem perm_entries {text : String} {t : TypeTable} (h : parse text = .ok t) :
    AllGood (writtenRows text) ∧ t.entries.entries.Perm (((writtenRows text).map (·.text)).filterMap kept?) := by
  rw [parse_eq] at h
  rcases allGood_or_fails (writtenRows text) with hgood | ⟨before, row, after, fault, hrows, hbefore, hfails⟩
  · obtain ⟨taken, htaken, hholds⟩ := foldlM_of_allGood hgood
    rw [htaken] at h
    cases h
    refine ⟨hgood, ?_⟩
    have hperm := List.Perm.map (fun e : String × Row => (e.1, e.2.target)) hholds
    rw [List.map_filterMap] at hperm
    rw [List.filterMap_map]
    refine hperm.trans (.of_eq (List.filterMap_congr fun row _ => ?_))
    rw [Function.comp_apply]
    cases kept? row.text <;> rfl
  · rw [hrows, foldlM_of_fails hbefore hfails] at h
    cases h

theorem parse_of_allGood {text : String} (h : AllGood (writtenRows text)) : ∃ t, parse text = .ok t := by
  obtain ⟨taken, htaken, -⟩ := foldlM_of_allGood h
  rw [parse_eq, htaken]
  exact ⟨_, rfl⟩

theorem parse_of_fails {text : String} {before after : List WrittenRow} {row : WrittenRow} {fault : Failure}
    (hrows : writtenRows text = before ++ row :: after) (hbefore : AllGood before)
    (hfails : FailsWith before row fault) : parse text = .error fault := by
  rw [parse_eq, hrows, foldlM_of_fails hbefore hfails]
  rfl

theorem parse_eq_error_iff {text : String} {fault : Failure} :
    parse text = .error fault ↔ ∃ before row after, writtenRows text = before ++ row :: after ∧
      AllGood before ∧ FailsWith before row fault := by
  constructor
  · intro h
    rcases allGood_or_fails (writtenRows text) with hgood | ⟨before, row, after, first, hrows, hbefore, hfails⟩
    · obtain ⟨t, ht⟩ := parse_of_allGood hgood
      rw [ht] at h
      cases h
    · rw [parse_of_fails hrows hbefore hfails] at h
      cases h
      exact ⟨before, row, after, hrows, hbefore, hfails⟩
  · rintro ⟨before, row, after, hrows, hbefore, hfails⟩
    exact parse_of_fails hrows hbefore hfails

theorem parse_of_perm {text other : String} {extra : List (List Char)} {t : TypeTable} (h : parse text = .ok t)
    (hextra : ∀ line ∈ extra, isRow line = false)
    (hlines : (Text.lines other.toList).Perm (extra ++ Text.lines text.toList)) : parse other = .ok t := by
  obtain ⟨hgood, hentries⟩ := perm_entries h
  obtain ⟨hreadable, hnodup⟩ := allGood_iff.1 hgood
  -- the rows have other numbers, but the same texts
  have htexts : ((writtenRows other).map (·.text)).Perm ((writtenRows text).map (·.text)) := perm_texts hextra hlines
  have hother : AllGood (writtenRows other) := allGood_iff.2
    ⟨fun row hrow => hreadable row (htexts.subset hrow), ((htexts.filterMap kept?).map Prod.fst).nodup_iff.2 hnodup⟩
  obtain ⟨t', ht'⟩ := parse_of_allGood hother
  have hsame : t'.entries = t.entries :=
    Table.eq_of_perm ((perm_entries ht').2.trans ((htexts.filterMap kept?).trans hentries.symm))
  rw [ht', show t' = t from congrArg TypeTable.mk hsame]

/-- A text is a type table if all its rows are good, and then it has the entries that its rows make, each once.
Otherwise it fails with its first row that is not good. With its lines in another order, and more blank lines and
comments, a type table is the same. -/
theorem parse_written (text : String) :
    ((∃ t, parse text = .ok t) ↔ AllGood (writtenRows text)) ∧
      (∀ t, parse text = .ok t → t.entries.entries.Perm ((writtenRows text).filterMap fun row => kept? row.text)) ∧
      (∀ fault, parse text = .error fault ↔ ∃ before row after, writtenRows text = before ++ row :: after ∧
        AllGood before ∧ FailsWith before row fault) ∧
      ∀ t other extra, parse text = .ok t → (∀ line ∈ extra, isRow line = false) →
        (Text.lines other.toList).Perm (extra ++ Text.lines text.toList) → parse other = .ok t := by
  refine ⟨⟨fun ⟨t, h⟩ => (perm_entries h).1, parse_of_allGood⟩, fun t h => ?_, fun fault => parse_eq_error_iff,
    fun t other extra => parse_of_perm⟩
  have hperm := (perm_entries h).2
  rwa [List.filterMap_map] at hperm

/-- Two entries, one of them with an empty piece, and a row that is passed over whatever stands on its right. -/
def plainText : String :=
  "GLenum, u32\nGLvoid*, \nGLint,,i32"

def rearrangedText : String :=
  "# types\nGLint,,i32\n \nGLenum, u32\nGLvoid*, \n"

theorem parse_written_rearranged :
    ∃ t, parse plainText = .ok t ∧ parse rearrangedText = .ok t ∧
      t.entries.entries.Perm [("GLenum", ⟨"u32", 0⟩), ("GLint", ⟨"i32", 0⟩)] := by
  have hplain : parse plainText = .ok (ofList [("GLenum", ⟨"u32", 0⟩), ("GLint", ⟨"i32", 0⟩)]) := by decide +kernel
  have hentries : ((writtenRows plainText).filterMap fun row => kept? row.text) =
      [("GLenum", ⟨"u32", 0⟩), ("GLint", ⟨"i32", 0⟩)] := by decide +kernel
  obtain ⟨-, hall, -, hmoved⟩ := parse_written plainText
  have hsame := hmoved _ rearrangedText ["# types".toList, " ".toList] hplain (by decide +kernel) (by decide +kernel)
  exact ⟨_, hplain, hsame, hentries ▸ hall _ hplain⟩

example : parse "GLenum, u32\n# again\nGLenum, i32\n,GLint" = .error (.duplicateRow "GLenum" 3 1) := by decide +kernel

end ApiProfile.TypeTable
