import ApiProfile.Proofs.Toml.Quoted
import ApiProfile.Toml.Statement
/-!
# Written settings are read back

A file of sections is read as the statements that its titles and settings stand for, in their order
(`statements?_render`), if the names of tables and settings need no quotes.
-/

namespace ApiProfile.Toml

variable {rest : List Char}

/-! ## What is written -/

/-- A name that is written without quotes. -/
def IsBare (name : String) : Prop :=
  name.toList ≠ [] ∧ ∀ c ∈ name.toList, isBareChar c

instance (name : String) : Decidable (IsBare name) :=
  inferInstanceAs (Decidable (_ ∧ _))

/-- The value that a written one is read as. -/
def Written.value : Written → Toml
  | text value => .string value
  | texts values => .array (values.map .string)

/-- The name in a title. -/
def Title.name? : Title → Option String
  | none => .none
  | table name | item name => some name

/-- The statement that a title is read as. -/
def Title.statements : Title → List Statement
  | none => []
  | table name => [.header [name]]
  | item name => [.itemHeader [name]]

/-- The statements that a section is read as. -/
def Section.statements (s : Section) : List Statement :=
  s.title.statements ++ s.settings.map fun (name, value) => .assignment [name] value.value

/-- A section of which no name needs quotes. -/
structure Section.IsBare (s : Section) : Prop where
  title : ∀ name ∈ s.title.name?, Toml.IsBare name
  settings : ∀ setting ∈ s.settings, Toml.IsBare setting.1

/-! ## Gaps -/

theorem skipSpace_cons {c : Char} (hc : isInlineSpace c = false) (cs : List Char) : skipSpace (c :: cs) = c :: cs :=
  List.dropWhile_cons_of_neg (by simp [hc])

theorem skipLines_eq (cs : List Char) : skipLines cs =
    match lineEnd? (skipComment (skipSpace cs)) with
    | some rest => skipLines rest
    | none => skipComment (skipSpace cs) := by
  rw [skipLines]
  split <;> rename_i h <;> simp only [h]

/-- A character that something other than a gap starts with. -/
def startsMore (c : Char) : Bool :=
  !isInlineSpace c && c ≠ '#' && c ≠ '\n' && c ≠ '\r'

theorem skipLines_cons {c : Char} (hc : startsMore c) (cs : List Char) : skipLines (c :: cs) = c :: cs := by
  simp only [startsMore, Bool.and_eq_true, Bool.not_eq_true', decide_eq_true_eq] at hc
  obtain ⟨⟨⟨hspace, hcomment⟩, hfeed⟩, hreturn⟩ := hc
  have hgap : skipComment (skipSpace (c :: cs)) = c :: cs := by
    rw [skipSpace_cons hspace]
    unfold skipComment
    split
    · rename_i heq
      cases heq
      exact absurd rfl hcomment
    · rfl
  rw [skipLines_eq, hgap, lineEnd?_cons hfeed hreturn]

theorem skipLines_nil : skipLines [] = [] :=
  skipLines_eq []

theorem skipLines_lineFeed (cs : List Char) : skipLines ('\n' :: cs) = skipLines cs :=
  skipLines_eq ('\n' :: cs)

theorem skipLines_space (cs : List Char) : skipLines (' ' :: cs) = skipLines cs := by
  have hgap : skipSpace (' ' :: cs) = skipSpace cs := List.dropWhile_cons_of_pos rfl
  rw [skipLines_eq, skipLines_eq cs, hgap]

/-! ## Names -/

theorem isBareChar_head {name : String} (hname : IsBare name) :
    ∃ c cs, name.toList = c :: cs ∧ isBareChar c := by
  obtain ⟨hne, hall⟩ := hname
  cases hcs : name.toList with
  | nil => exact absurd hcs hne
  | cons c cs => exact ⟨c, cs, rfl, hall c (by rw [hcs]; exact .head cs)⟩

theorem ne_of_isBareChar {c d : Char} (hc : isBareChar c) (hd : isBareChar d = false) : c ≠ d := by
  rintro rfl
  rw [hc] at hd
  cases hd

theorem name?_append {name : String} (hname : IsBare name) (hrest : ∀ c ∈ rest.head?, isBareChar c = false) :
    name? (name.toList ++ rest) = some (name, rest) := by
  obtain ⟨c, cs, hcs, hc⟩ := isBareChar_head hname
  have hquoted : quotedLine? (name.toList ++ rest) = none := by
    rw [hcs, List.cons_append]
    unfold quotedLine?
    split
    · rename_i heq
      cases heq
      exact absurd hc (by decide)
    · rename_i heq
      cases heq
      exact absurd hc (by decide)
    · rfl
  have hstop : rest.takeWhile isBareChar = [] ∧ rest.dropWhile isBareChar = rest := by
    cases rest with
    | nil => exact ⟨rfl, rfl⟩
    | cons d rest =>
      have hd : ¬isBareChar d := by simp [hrest d rfl]
      exact ⟨List.takeWhile_cons_of_neg hd, List.dropWhile_cons_of_neg hd⟩
  unfold name?
  rw [hquoted]
  dsimp only
  rw [List.takeWhile_append_of_pos hname.2, List.dropWhile_append_of_pos hname.2, hstop.1, hstop.2, List.append_nil,
    if_neg hname.1, String.ofList_toList]

/-- A name up to a blank or a bracket is a key. -/
theorem key?_append {name : String} (hname : IsBare name) (hrest : ∀ c ∈ rest.head?, isBareChar c = false)
    (hpoint : ∀ more, skipSpace rest ≠ '.' :: more) :
    key? (name.toList ++ rest) = some ([name], skipSpace rest) := by
  obtain ⟨c, cs, hcs, hc⟩ := isBareChar_head hname
  have hspace : skipSpace (name.toList ++ rest) = name.toList ++ rest := by
    rw [hcs, List.cons_append, skipSpace_cons]
    unfold isInlineSpace
    simp [ne_of_isBareChar hc (d := ' ') (by decide), ne_of_isBareChar hc (d := '\t') (by decide)]
  unfold key? deepest keyWithin?
  rw [hspace, name?_append hname hrest]
  dsimp only [bind, Option.bind]
  split
  · rename_i heq
    exact absurd heq (hpoint _)
  · rfl

/-! ## Values -/

theorem exists_quote_cons (text : List Char) :
    ∃ mark cs, quote text = mark :: cs ∧ (mark = '"' ∨ mark = '\'') := by
  unfold quote
  generalize Quotes.ofText text = quotes
  cases quotes with
  | double => exact ⟨'"', _, rfl, .inl rfl⟩
  | single => exact ⟨'\'', _, rfl, .inr rfl⟩
  | threeDouble => exact ⟨'"', _, rfl, .inl rfl⟩
  | threeSingle => exact ⟨'\'', _, rfl, .inr rfl⟩

theorem valueWith?_quote (hdouble : rest.head? ≠ some '"') (hsingle : rest.head? ≠ some '\'') (value : String)
    {fuel : Nat} (hfuel : 0 < fuel) (depth : Nat) :
    valueWith? fuel depth (quote value.toList ++ rest) = some (.string value, rest) := by
  obtain ⟨fuel, rfl⟩ := Nat.exists_eq_succ_of_ne_zero (Nat.ne_of_gt hfuel)
  have hread := quoted?_quote hdouble hsingle value.toList
  obtain ⟨mark, cs, hcs, hmark⟩ := exists_quote_cons value.toList
  rw [hcs, List.cons_append] at hread ⊢
  have hvalue : some (Toml.string (String.ofList value.toList), rest) = some (.string value, rest) := by
    rw [String.ofList_toList]
  rcases hmark with rfl | rfl <;> rw [valueWith?, hread] <;> exact hvalue

theorem skipLines_quote (text rest : List Char) : skipLines (quote text ++ rest) = quote text ++ rest := by
  obtain ⟨mark, cs, hcs, hmark⟩ := exists_quote_cons text
  rw [hcs, List.cons_append]
  rcases hmark with rfl | rfl <;> exact skipLines_cons (by decide) _

theorem itemsWith?_end {cs : List Char} (hgap : skipLines cs = ']' :: rest) (fuel depth : Nat) :
    itemsWith? (fuel + 1) depth cs = some ([], rest) := by
  rw [itemsWith?, hgap]
  rfl

/-- After an item, a list goes on behind a comma, or ends. -/
theorem itemsWith?_quote {cs : List Char} {value : String} (hgap : skipLines cs = quote value.toList ++ rest)
    (hdouble : rest.head? ≠ some '"') (hsingle : rest.head? ≠ some '\'') {fuel : Nat} (hfuel : 0 < fuel) (depth : Nat) :
    itemsWith? (fuel + 1) depth cs =
      match skipLines rest with
      | ',' :: rest => do
        let (items, rest) ← itemsWith? fuel depth rest
        return (.string value :: items, rest)
      | ']' :: rest => some ([.string value], rest)
      | _ => none := by
  have hread := valueWith?_quote hdouble hsingle value hfuel depth
  obtain ⟨mark, more, hmore, hmark⟩ := exists_quote_cons value.toList
  rw [itemsWith?, hgap]
  split
  · rename_i heq
    rw [hmore] at heq
    rcases hmark with rfl | rfl <;> cases heq
  · rw [hread]
    rfl

/-- The items that a list goes on with, one to a line. -/
def itemLines (values : List String) : List Char :=
  values.flatMap fun value => "    ".toList ++ quote value.toList ++ [',', '\n']

theorem itemsWith?_lines (values : List String) (rest : List Char) {fuel : Nat} (hfuel : values.length < fuel)
    (depth : Nat) :
    itemsWith? fuel depth ('\n' :: (itemLines values ++ ']' :: rest)) = some (values.map .string, rest) := by
  induction values generalizing fuel with
  | nil =>
    obtain ⟨fuel, rfl⟩ := Nat.exists_eq_succ_of_ne_zero (Nat.ne_of_gt hfuel)
    exact itemsWith?_end (by rw [skipLines_lineFeed]; exact skipLines_cons rfl rest) fuel depth
  | cons value values ih =>
    obtain ⟨fuel, rfl⟩ := Nat.exists_eq_succ_of_ne_zero (Nat.ne_of_gt (Nat.zero_lt_of_lt hfuel))
    have hlonger : values.length < fuel := by simpa using hfuel
    have hlines : itemLines (value :: values) ++ ']' :: rest = ' ' :: ' ' :: ' ' :: ' ' ::
        (quote value.toList ++ ',' :: '\n' :: (itemLines values ++ ']' :: rest)) := by
      simp [itemLines]
    have hgap : skipLines ('\n' :: (itemLines (value :: values) ++ ']' :: rest)) =
        quote value.toList ++ ',' :: '\n' :: (itemLines values ++ ']' :: rest) := by
      rw [hlines, skipLines_lineFeed, skipLines_space, skipLines_space, skipLines_space, skipLines_space,
        skipLines_quote]
    rw [itemsWith?_quote hgap (by simp) (by simp) (Nat.zero_lt_of_lt hlonger) depth, skipLines_cons rfl]
    change (do
      let (items, rest) ← itemsWith? fuel depth ('\n' :: (itemLines values ++ ']' :: rest))
      return (Toml.string value :: items, rest)) = _
    rw [ih hlonger]
    rfl

/-- How many texts a value has. -/
def Written.count : Written → Nat
  | text _ => 1
  | texts values => values.length

theorem valueWith?_list (fuel depth : Nat) (cs : List Char) :
    valueWith? (fuel + 1) (depth + 1) ('[' :: cs) =
      (itemsWith? fuel depth cs).map fun (items, rest) => (.array items, rest) := by
  rw [valueWith?.eq_def]
  rfl

theorem valueWith?_render (value : Written) (rest : List Char) {fuel : Nat} (hfuel : value.count + 2 ≤ fuel)
    (depth : Nat) :
    valueWith? fuel (depth + 1) (value.render ++ '\n' :: rest) = some (value.value, '\n' :: rest) := by
  cases value with
  | text value => exact valueWith?_quote (by simp) (by simp) value (by omega) _
  | texts values =>
    obtain ⟨fuel, rfl⟩ : ∃ less, fuel = less + 2 := ⟨fuel - 2, by omega⟩
    have hitems : values.length ≤ fuel := Nat.le_of_add_le_add_right hfuel
    match values with
    | [] =>
      change valueWith? (fuel + 2) (depth + 1) ('[' :: ']' :: '\n' :: rest) = _
      rw [valueWith?_list, itemsWith?_end (skipLines_cons rfl _)]
      rfl
    | [value] =>
      have hitem : (Written.texts [value]).render ++ '\n' :: rest =
          '[' :: (quote value.toList ++ ']' :: '\n' :: rest) := by
        simp [Written.render]
      rw [hitem, valueWith?_list, itemsWith?_quote (skipLines_quote _ _) (by simp) (by simp) hitems, skipLines_cons rfl]
      rfl
    | first :: second :: values =>
      have hlines : (Written.texts (first :: second :: values)).render ++ '\n' :: rest =
          '[' :: '\n' :: (itemLines (first :: second :: values) ++ ']' :: '\n' :: rest) := by
        simp [Written.render, itemLines]
      rw [hlines, valueWith?_list, itemsWith?_lines _ _ (Nat.lt_succ_of_le hitems)]
      rfl

/-! ## Statements -/

theorem count_le_length (value : Written) : value.count ≤ value.render.length := by
  cases value with
  | text value =>
    obtain ⟨mark, cs, hcs, -⟩ := exists_quote_cons value.toList
    rw [Written.render, hcs]
    exact Nat.le_add_left 1 _
  | texts values =>
    have hlines : values.length ≤ (itemLines values).length := by
      induction values with
      | nil => exact Nat.le_refl 0
      | cons value values ih =>
        unfold itemLines at ih ⊢
        simp only [List.flatMap_cons, List.length_append, List.length_cons]
        omega
    match values with
    | [] => exact Nat.zero_le _
    | [value] => exact Nat.le_add_left 1 _
    | first :: second :: values =>
      have hshown : (Written.texts (first :: second :: values)).render =
          '[' :: '\n' :: (itemLines (first :: second :: values) ++ [']']) := rfl
      rw [hshown, List.length_cons, List.length_cons, List.length_append]
      change (first :: second :: values).length ≤ _
      omega

/-- The line of a setting. -/
def settingLine (setting : String × Written) : List Char :=
  setting.1.toList ++ ' ' :: '=' :: ' ' :: setting.2.render ++ ['\n']

theorem skipSpace_render (value : Written) (rest : List Char) :
    skipSpace (' ' :: (value.render ++ rest)) = value.render ++ rest := by
  have hhead : ∃ c cs, value.render = c :: cs ∧ isInlineSpace c = false := by
    cases value with
    | text value =>
      obtain ⟨mark, cs, hcs, hmark⟩ := exists_quote_cons value.toList
      exact ⟨mark, cs, hcs, by rcases hmark with rfl | rfl <;> rfl⟩
    | texts values =>
      match values with
      | [] => exact ⟨_, _, rfl, rfl⟩
      | [value] => exact ⟨_, _, rfl, rfl⟩
      | first :: second :: values => exact ⟨_, _, rfl, rfl⟩
  obtain ⟨c, cs, hcs, hc⟩ := hhead
  rw [hcs]
  exact skipSpace_cons hc _

theorem assignmentWith?_setting {name : String} (hname : IsBare name) (value : Written) (rest : List Char) {fuel : Nat}
    (hfuel : value.count + 3 ≤ fuel) (depth : Nat) :
    assignmentWith? fuel (depth + 1) (settingLine (name, value) ++ rest) =
      some (([name], value.value), '\n' :: rest) := by
  obtain ⟨fuel, rfl⟩ : ∃ less, fuel = less + 1 := ⟨fuel - 1, by omega⟩
  have hline : settingLine (name, value) ++ rest =
      name.toList ++ ' ' :: '=' :: ' ' :: (value.render ++ '\n' :: rest) := by
    simp [settingLine]
  have hkey : key? (name.toList ++ ' ' :: '=' :: ' ' :: (value.render ++ '\n' :: rest)) =
      some ([name], '=' :: ' ' :: (value.render ++ '\n' :: rest)) :=
    key?_append hname (by rintro c ⟨⟩; decide) (fun more heq => by cases heq)
  have hvalue := valueWith?_render value rest (Nat.le_of_succ_le_succ hfuel) depth
  rw [assignmentWith?, hline, hkey]
  change (valueWith? fuel (depth + 1) (skipSpace (' ' :: (value.render ++ '\n' :: rest)))).bind _ = _
  rw [skipSpace_render, hvalue]
  rfl

theorem statement?_setting {setting : String × Written} (hname : IsBare setting.1) (rest : List Char) :
    statement? (settingLine setting ++ rest) = some (.assignment [setting.1] setting.2.value, rest) := by
  obtain ⟨name, value⟩ := setting
  have hbracket : ∀ cs, settingLine (name, value) ++ rest ≠ '[' :: cs := by
    obtain ⟨c, more, hmore, hc⟩ := isBareChar_head hname
    intro cs heq
    unfold settingLine at heq
    dsimp only at heq
    rw [hmore] at heq
    cases heq
    exact absurd hc (by decide)
  have hcount := count_le_length value
  have hfuel : value.count + 3 ≤ 4 * (settingLine (name, value) ++ rest).length + 4 := by
    simp only [settingLine, List.length_append, List.length_cons]
    omega
  have hread := assignmentWith?_setting hname value rest hfuel 78
  unfold statement?
  split
  · rename_i heq
    exact absurd heq (hbracket _)
  · rename_i heq
    exact absurd heq (hbracket _)
  · change (assignmentWith? _ 79 _).bind _ = _
    rw [hread]
    rfl

theorem statement?_title {title : Title} (htitle : ∀ name ∈ title.name?, IsBare name) (rest : List Char) :
    (title = .none ∧ title.render = [] ∧ title.statements = []) ∨ ∃ statement, title.statements = [statement] ∧
      (∃ cs, title.render = '[' :: cs) ∧ statement? (title.render ++ rest) = some (statement, rest) := by
  cases title with
  | none => exact .inl ⟨rfl, rfl, rfl⟩
  | table name =>
    have hname := htitle name rfl
    have hkey : key? (name.toList ++ ']' :: '\n' :: rest) = some ([name], ']' :: '\n' :: rest) :=
      key?_append hname (by rintro c ⟨⟩; decide) (fun more heq => by cases heq)
    refine .inr ⟨_, rfl, ⟨_, rfl⟩, ?_⟩
    have hshown : (Title.table name).render ++ rest = '[' :: (name.toList ++ ']' :: '\n' :: rest) := by
      simp [Title.render]
    rw [hshown]
    unfold statement?
    split
    · rename_i heq
      obtain ⟨c, more, hmore, hc⟩ := isBareChar_head hname
      rw [hmore] at heq
      cases heq
      exact absurd hc (by decide)
    · rename_i heq
      cases heq
      rw [hkey]
      rfl
    · rename_i hno
      exact absurd rfl (hno _)
  | item name =>
    have hname := htitle name rfl
    have hkey : key? (name.toList ++ ']' :: ']' :: '\n' :: rest) = some ([name], ']' :: ']' :: '\n' :: rest) :=
      key?_append hname (by rintro c ⟨⟩; decide) (fun more heq => by cases heq)
    refine .inr ⟨_, rfl, ⟨_, rfl⟩, ?_⟩
    have hshown : (Title.item name).render ++ rest = '[' :: '[' :: (name.toList ++ ']' :: ']' :: '\n' :: rest) := by
      simp [Title.render]
    rw [hshown, statement?, hkey]
    rfl

/-! ## Files -/

/-- A statement is read off the text that is left, as far as that starts with no gap. -/
theorem statementsWith?_cons {cs : List Char} {c : Char} (hc : startsMore c) (hcs : cs.head? = some c)
    {statement : Statement} (hread : statement? cs = some (statement, rest)) (fuel : Nat) :
    statementsWith? (fuel + 1) cs = (statementsWith? fuel rest).map (statement :: ·) := by
  obtain ⟨more, rfl⟩ := List.head?_eq_some_iff.1 hcs
  rw [statementsWith?, skipLines_cons hc]
  change (statement? (c :: more)).bind _ = _
  rw [hread]
  change (statementsWith? fuel rest).bind _ = _
  rw [Option.map_eq_bind]
  rfl

/-- A blank line does not count. -/
theorem statementsWith?_lineFeed (fuel : Nat) (cs : List Char) :
    statementsWith? fuel ('\n' :: cs) = statementsWith? fuel cs := by
  rw [statementsWith?.eq_def, statementsWith?.eq_def fuel cs]
  dsimp only
  rw [skipLines_lineFeed]

theorem startsMore_of_isBareChar {c : Char} (hc : isBareChar c) : startsMore c := by
  have hne : ∀ d, isBareChar d = false → c ≠ d := fun d => ne_of_isBareChar hc
  unfold startsMore isInlineSpace
  simp [hne ' ' (by decide), hne '\t' (by decide), hne '#' (by decide), hne '\n' (by decide), hne '\r' (by decide)]

theorem statementsWith?_settings {settings : List (String × Written)} (hnames : ∀ s ∈ settings, IsBare s.1)
    (rest : List Char) (fuel : Nat) :
    statementsWith? (fuel + settings.length) (settings.flatMap settingLine ++ rest) =
      (statementsWith? fuel rest).map
        ((settings.map fun (name, value) => Statement.assignment [name] value.value) ++ ·) := by
  induction settings with
  | nil => simp
  | cons setting settings ih =>
    obtain ⟨c, more, hmore, hc⟩ := isBareChar_head (hnames setting (.head settings))
    have hread := statement?_setting (hnames setting (.head settings)) (settings.flatMap settingLine ++ rest)
    have hhead : (settingLine setting ++ (settings.flatMap settingLine ++ rest)).head? = some c := by
      unfold settingLine
      rw [hmore]
      rfl
    rw [List.flatMap_cons, List.append_assoc, List.length_cons, ← Nat.add_assoc,
      statementsWith?_cons (startsMore_of_isBareChar hc) hhead hread, ih fun s hs => hnames s (.tail setting hs),
      Option.map_map]
    rfl

theorem statementsWith?_section {s : Section} (hs : s.IsBare) (rest : List Char) (fuel : Nat) :
    statementsWith? (fuel + s.statements.length) (s.render ++ rest) =
      (statementsWith? fuel rest).map (s.statements ++ ·) := by
  have hsettings := statementsWith?_settings hs.settings rest fuel
  have hshown : s.render ++ rest = s.title.render ++ (s.settings.flatMap settingLine ++ rest) := by
    rw [← List.append_assoc]
    rfl
  have hlength : s.statements.length = s.settings.length + s.title.statements.length := by
    simp [Section.statements, Nat.add_comm]
  rw [hshown, hlength, ← Nat.add_assoc]
  unfold Section.statements
  rcases statement?_title hs.title (s.settings.flatMap settingLine ++ rest) with
    ⟨-, hrender, hnone⟩ | ⟨statement, hstatement, ⟨cs, hcs⟩, hread⟩
  · rw [hrender, hnone]
    exact hsettings
  · rw [hstatement, List.length_singleton, statementsWith?_cons (c := '[') (by decide) (by rw [hcs]; rfl) hread,
      hsettings, Option.map_map]
    rfl

theorem statementsWith?_sections {sections : List Section} (hbare : ∀ s ∈ sections, s.IsBare) (fuel : Nat) :
    statementsWith? (fuel + (sections.flatMap Section.statements).length)
      (['\n'].intercalate (sections.map Section.render)) = some (sections.flatMap Section.statements) := by
  have hend : ∀ fuel, statementsWith? fuel [] = some [] := fun fuel => by
    rw [statementsWith?.eq_def]
    dsimp only
    rw [skipLines_nil]
  induction sections with
  | nil => exact hend _
  | cons s sections ih =>
    have hrest := ih fun t ht => hbare t (.tail s ht)
    rw [List.flatMap_cons, List.length_append, Nat.add_comm s.statements.length, ← Nat.add_assoc]
    cases sections with
    | nil =>
      have hlast := statementsWith?_section (hbare s (.head _)) [] fuel
      rw [List.append_nil, hend] at hlast
      simpa using hlast
    | cons t sections =>
      have hshown : ['\n'].intercalate ((s :: t :: sections).map Section.render) =
          s.render ++ '\n' :: ['\n'].intercalate ((t :: sections).map Section.render) := by
        simp [List.intercalate]
      rw [hshown, statementsWith?_section (hbare s (.head _)), statementsWith?_lineFeed, hrest]
      rfl

theorem length_statements_le (s : Section) : s.statements.length ≤ s.render.length := by
  have htitle : s.title.statements.length ≤ s.title.render.length := by
    cases s.title with
    | none => exact Nat.le_refl 0
    | table name => exact Nat.le_add_left 1 _
    | item name => exact Nat.le_add_left 1 _
  have hsettings : s.settings.length ≤ (s.settings.flatMap settingLine).length := by
    induction s.settings with
    | nil => exact Nat.le_refl 0
    | cons setting settings ih =>
      simp only [List.flatMap_cons, List.length_append, List.length_cons, settingLine] at ih ⊢
      omega
  have hrender : s.render.length = s.title.render.length + (s.settings.flatMap settingLine).length :=
    List.length_append
  rw [hrender, Section.statements, List.length_append, List.length_map]
  omega

/-- A file of sections is read as the statements of its sections. -/
theorem statements?_render {sections : List Section} (hbare : ∀ s ∈ sections, s.IsBare) :
    statements? (render sections).toList = some (sections.flatMap Section.statements) := by
  have hlength : (sections.flatMap Section.statements).length ≤
      (['\n'].intercalate (sections.map Section.render)).length := by
    clear hbare
    induction sections with
    | nil => exact Nat.le_refl 0
    | cons s sections ih =>
      have hfirst := length_statements_le s
      cases sections with
      | nil => simpa using hfirst
      | cons t sections =>
        simp only [List.map_cons, List.flatMap_cons, List.length_append, List.intercalate_cons_cons] at ih ⊢
        omega
  unfold render statements?
  rw [String.toList_ofList]
  obtain ⟨fuel, hfuel⟩ := Nat.exists_eq_add_of_le' hlength
  rw [hfuel]
  exact statementsWith?_sections hbare fuel

end ApiProfile.Toml
