import ApiProfile.Proofs.Markup.Building
import ApiProfile.Proofs.Markup.Moving
import ApiProfile.Proofs.Table
import ApiProfile.Proofs.Registry.Declaring
/-!
# Documents in another order

Where a declaration stands in a document hardly matters. Blocks may be written in any order, and so may be what is in
them, as long as features keep their order among themselves, and so do declarations of one constant. We show that a
document that is `Rearranged` so is read if and only if the first one is, and as the same registry
(`ofDocument_rearranged`). The types of commands are read as texts, so what is moved must leave these as they are: a
block inside of a type is no list of declarations (`ofDocument_ne_moved_words`).
-/

namespace ApiProfile.Registry

open Markup

/-- The elements that are read as texts. -/
def wordedNames : List String :=
  ["proto", "param", "name"]

/-- Documents that differ in the order of what is below the top and of what is in blocks. Features keep their order,
and so do the declarations of each constant. -/
structure Rearranged (worded : List String) (root other : Element) : Prop where
  name : root.name = other.name
  attributes : root.attributes = other.attributes
  children : Shuffled worded root.children other.children
  features : List.Forall₂ (Element.Moved worded) (root.elementsNamed "feature") (other.elementsNamed "feature")
  declarations : ∀ name,
    List.Forall₂ (Element.Moved worded) (declarationsOf root name) (declarationsOf other name)

/-! ## What is read of moved elements -/

section Moved

variable {worded : List String} {e f : Element}

theorem readDeclaration_of_moved (h : e.Moved worded f) : readDeclaration e = readDeclaration f := by
  unfold readDeclaration
  rw [h.requiredAttribute, h.requiredAttribute, h.attribute?]

/-- The members of a group may stand in any order. -/
theorem readGroup_of_shuffled {g : Group} (hname : e.requiredAttribute "name" = f.requiredAttribute "name")
    (hmembers : (e.elements.map fun a => (a.requiredAttribute "name").toOption).Perm
      (f.elements.map fun a => (a.requiredAttribute "name").toOption)) (h : readGroup e = .ok g) :
    readGroup f = .ok g := by
  obtain ⟨name, hread, h⟩ := bind_eq_ok.1 h
  obtain ⟨members, hall, h⟩ := bind_eq_ok.1 h
  cases h
  obtain ⟨others, hothers, hperm⟩ := mapM_perm hmembers hall
  unfold readGroup
  rw [← hname, hread, hothers]
  exact congrArg (fun members => Except.ok (Group.mk name members)) (NameSet.ofList_perm hperm)

theorem readGroup_of_moved (h : e.Moved worded f) : (readGroup e).toOption = (readGroup f).toOption := by
  have hmembers : (e.elements.map fun a => (a.requiredAttribute "name").toOption).Perm
      (f.elements.map fun a => (a.requiredAttribute "name").toOption) := by
    apply h.shuffled.perm_map
    intro a b hab
    rw [hab.requiredAttribute]
  have hname := h.requiredAttribute "name"
  apply Option.ext
  intro g
  rw [toOption_eq_some, toOption_eq_some]
  exact ⟨readGroup_of_shuffled hname hmembers, readGroup_of_shuffled hname.symm hmembers.symm⟩

/-- An element that keeps its text keeps the name and the type that it declares. -/
theorem readTyped_of_moved (h : e.Moved wordedNames f) (hname : e.name = "proto" ∨ e.name = "param") :
    readTyped e = readTyped f := by
  have hblock : e.name ∉ blockNames := by rcases hname with h | h <;> rw [h] <;> decide
  have hworded : e.name ∈ wordedNames := by rcases hname with h | h <;> rw [h] <;> decide
  unfold readTyped
  rcases h.requiredChild hblock "name" with ⟨a, b, ha, hb, hdeclared, hab⟩ | ⟨fault, ha, hb⟩
  · have hname : a.text = b.text := hab.text (by rw [hdeclared]; decide)
    rw [ha, hb, h.text hworded, h.attribute?]
    dsimp only [bind, Except.bind]
    rw [hname]
  · rw [ha, hb]
    rfl

theorem readCommand_of_moved (h : e.Moved wordedNames f) (hname : e.name = "command") :
    readCommand e = readCommand f := by
  have hblock : e.name ∉ blockNames := by rw [hname]; decide
  have hparameters : (e.elementsNamed "param").mapM readParameter = (f.elementsNamed "param").mapM readParameter := by
    apply mapM_congr_forall₂
    refine (h.elementsNamed hblock "param").imp fun a b hab => ?_
    unfold readParameter
    rw [readTyped_of_moved hab.2 (.inr hab.1)]
  unfold readCommand
  rw [hparameters]
  rcases h.requiredChild hblock "proto" with ⟨a, b, ha, hb, hproto, hab⟩ | ⟨fault, ha, hb⟩
  · rw [ha, hb]
    dsimp only [bind, Except.bind]
    rw [readTyped_of_moved hab (.inl hproto)]
  · rw [ha, hb]

theorem admits_of_moved (s : Selection) (h : e.Moved worded f) : s.admits e = s.admits f := by
  unfold Selection.admits
  rw [h.attribute?, h.attribute?]

theorem readMention_of_moved (h : e.Moved worded f) : readMention e = readMention f := by
  unfold readMention
  rw [h.requiredAttribute, h.name]

theorem readMentions_of_moved (s : Selection) (h : e.Moved worded f) (hname : e.name = "feature") {block : String}
    (hblock : block ∉ blockNames) : readMentions s e block = readMentions s f block := by
  have hblocks : List.Forall₂ (fun a b => a.name = block ∧ a.Moved worded b)
      ((e.elementsNamed block).filter s.admits) ((f.elementsNamed block).filter s.admits) :=
    List.rel_filter (fun a b hab => by simp [admits_of_moved s hab.2]) (h.elementsNamed (by rw [hname]; decide) block)
  have hinside : List.Forall₂ (Element.Moved worded) (((e.elementsNamed block).filter s.admits).flatMap (·.elements))
      (((f.elementsNamed block).filter s.admits).flatMap (·.elements)) :=
    List.rel_flatMap hblocks fun a b hab => elements_of_moved (hab.2.inOrder (hab.1 ▸ hblock))
  unfold readMentions
  rw [mapM_congr_forall₂ (hinside.imp fun a b hab => readMention_of_moved hab)]

theorem readFeature_of_moved (s : Selection) (h : e.Moved worded f) (hname : e.name = "feature") :
    readFeature s e = readFeature s f := by
  unfold readFeature
  rw [h.requiredAttribute, h.requiredAttribute, readMentions_of_moved s h hname (by decide),
    readMentions_of_moved s h hname (by decide)]

end Moved

/-! ## What is read of rearranged documents -/

/-- The parts of two documents are read alike, up to the order where it does not matter. -/
structure ReadAlike (s : Selection) (root other : Element) : Prop where
  declarations : ((declarationsIn root).map fun e => (readDeclaration e).toOption).Perm
    ((declarationsIn other).map fun e => (readDeclaration e).toOption)
  declarationsOf : ∀ name,
    (declarationsOf root name).map readDeclaration = (declarationsOf other name).map readDeclaration
  groups : (((root.elementsNamed "groups").flatMap (·.elementsNamed "group")).map fun e => (readGroup e).toOption).Perm
    (((other.elementsNamed "groups").flatMap (·.elementsNamed "group")).map fun e => (readGroup e).toOption)
  commands :
    (((root.elementsNamed "commands").flatMap (·.elementsNamed "command")).map fun e => (readCommand e).toOption).Perm
      (((other.elementsNamed "commands").flatMap (·.elementsNamed "command")).map fun e => (readCommand e).toOption)
  features : readFeatures s root = readFeatures s other

theorem ReadAlike.symm {s : Selection} {root other : Element} (h : ReadAlike s root other) : ReadAlike s other root :=
  ⟨h.declarations.symm, fun name => (h.declarationsOf name).symm, h.groups.symm, h.commands.symm, h.features.symm⟩

theorem Rearranged.readAlike {root other : Element} (h : Rearranged wordedNames root other) (s : Selection) :
    ReadAlike s root other where
  declarations := by
    unfold declarationsIn
    rw [List.map_flatMap, List.map_flatMap]
    apply h.children.perm_flatMap_named
    intro a b _ hab
    apply hab.shuffled.perm_map_named
    intro c d _ hcd
    rw [readDeclaration_of_moved hcd]
  declarationsOf name := by
    have hread := (h.declarations name).imp fun a b hab => readDeclaration_of_moved hab
    rwa [← List.forall₂_eq_eq_eq, List.forall₂_map_left_iff, List.forall₂_map_right_iff]
  groups := by
    rw [List.map_flatMap, List.map_flatMap]
    apply h.children.perm_flatMap_named
    intro a b _ hab
    apply hab.shuffled.perm_map_named
    intro c d _ hcd
    exact readGroup_of_moved hcd
  commands := by
    rw [List.map_flatMap, List.map_flatMap]
    apply h.children.perm_flatMap_named
    intro a b _ hab
    apply hab.shuffled.perm_map_named
    intro c d hc hcd
    rw [readCommand_of_moved hcd hc]
  features := by
    have hnamed : ∀ a ∈ root.elementsNamed "feature", a.name = "feature" := fun a ha => name_of_mem_elementsNamed ha
    have hread := ((List.forall₂_and_left _ _).2 ⟨hnamed, h.features⟩).imp fun a b hab =>
      readFeature_of_moved s hab.2 hab.1
    unfold readFeatures
    rw [mapM_congr_forall₂ hread]

theorem ReadAlike.readConstants {s : Selection} {root other : Element} (h : ReadAlike s root other)
    {constants : Table Constant} (hread : readConstants root = .ok constants) : readConstants other = .ok constants := by
  obtain ⟨ds, hds, hread⟩ := bind_eq_ok.1 hread
  cases hread
  obtain ⟨others, hothers, -⟩ := mapM_perm h.declarations hds
  have hrecorded : others.foldl record .empty = ds.foldl record .empty := by
    apply Table.ext_get?
    intro name
    -- each name is declared by the same declarations in the same order
    have hsame : others.filter (·.constant.name = name) = ds.filter (·.constant.name = name) := by
      apply List.map_injective_iff.2 fun _ _ => Except.ok.inj (ε := Failure)
      rw [← read_declarationsOf hothers, ← read_declarationsOf hds, h.declarationsOf]
    rw [get?_foldl_record, get?_foldl_record, hsame]
  unfold Registry.readConstants
  exact bind_eq_ok.2 ⟨others, hothers, by rw [hrecorded]; rfl⟩

theorem ReadAlike.ofRoot {s : Selection} {root other : Element} (h : ReadAlike s root other) {r : Registry}
    (hread : ofRoot s root = .ok r) : Registry.ofRoot s other = .ok r := by
  obtain ⟨hconstants, hgroups, hcommands, hfeatures, hdigest⟩ := ofRoot_eq_ok.1 hread
  exact ofRoot_eq_ok.2 ⟨h.readConstants hconstants, readUnique_perm h.groups hgroups,
    readUnique_perm h.commands hcommands, h.features ▸ hfeatures, hdigest⟩

/-! ## The whole document -/

/-- A rearranged document is read if and only if the document is, and as the same registry, the digest apart. -/
theorem ofDocument_rearranged {document rearranged : String} {root other : Element}
    (hroot : Element.ofDocument document = .ok root) (hother : Element.ofDocument rearranged = .ok other)
    (h : Rearranged wordedNames root other) (s : Selection) :
    ((∃ r, ofDocument s document = .ok r) ↔ ∃ r, ofDocument s rearranged = .ok r) ∧
    ∀ r r', ofDocument s document = .ok r → ofDocument s rearranged = .ok r' →
      { r with digest := none } = { r' with digest := none } := by
  have hread := h.readAlike s
  simp only [ofDocument_eq_ok hroot, ofDocument_eq_ok hother]
  refine ⟨⟨?_, ?_⟩, ?_⟩
  · rintro ⟨r, found, hfound, -⟩
    exact ⟨_, found, hread.ofRoot hfound, rfl⟩
  · rintro ⟨r, found, hfound, -⟩
    exact ⟨_, found, hread.symm.ofRoot hfound, rfl⟩
  · rintro _ _ ⟨found, hfound, rfl⟩ ⟨found', hfound', rfl⟩
    rw [hread.ofRoot hfound] at hfound'
    cases hfound'
    rfl

/-- A default behind a declaration for one API, a group in a block of its own, and two commands. -/
def orderedRoot : Element :=
  ⟨"registry", [], [
    .element "enums" [] [
      .element "enum" [("name", "A"), ("value", "1"), ("api", "gl")] [],
      .element "enum" [("name", "B"), ("value", "2")] []],
    .element "groups" [] [.element "group" [("name", "G")]
      [.element "enum" [("name", "A")] [], .element "enum" [("name", "B")] []]],
    .element "enums" [] [.element "enum" [("name", "A"), ("value", "3")] []],
    .element "feature" [("api", "gl"), ("number", "1.0")] [.element "require" [] [.element "enum" [("name", "A")] []]],
    .element "commands" [] [
      .element "command" [] [.element "proto" [] [.text "void ", .element "name" [] [.text "f"]]],
      .element "command" [] [.element "proto" [] [.text "int ", .element "name" [] [.text "g"]]]]]⟩

def orderedDocument : String :=
  "<registry><enums><enum name='A' value='1' api='gl'/><enum name='B' value='2'/></enums><groups><group name='G'>" ++
  "<enum name='A'/><enum name='B'/></group></groups><enums><enum name='A' value='3'/></enums>" ++
  "<feature api='gl' number='1.0'><require><enum name='A'/></require></feature><commands><command><proto>void " ++
  "<name>f</name></proto></command><command><proto>int <name>g</name></proto></command></commands></registry>"

/-- The same document with all that may be moved in another order. -/
def rearrangedRoot : Element :=
  ⟨"registry", [], [
    .element "feature" [("api", "gl"), ("number", "1.0")] [.element "require" [] [.element "enum" [("name", "A")] []]],
    .element "commands" [] [
      .element "command" [] [.element "proto" [] [.text "int ", .element "name" [] [.text "g"]]],
      .element "command" [] [.element "proto" [] [.text "void ", .element "name" [] [.text "f"]]]],
    .element "enums" [] [
      .element "enum" [("name", "B"), ("value", "2")] [],
      .element "enum" [("name", "A"), ("value", "1"), ("api", "gl")] []],
    .element "enums" [] [.element "enum" [("name", "A"), ("value", "3")] []],
    .element "groups" [] [.element "group" [("name", "G")]
      [.element "enum" [("name", "B")] [], .element "enum" [("name", "A")] []]]]⟩

def rearrangedDocument : String :=
  "<registry><feature api='gl' number='1.0'><require><enum name='A'/></require></feature><commands><command>" ++
  "<proto>int <name>g</name></proto></command><command><proto>void <name>f</name></proto></command></commands>" ++
  "<enums><enum name='B' value='2'/><enum name='A' value='1' api='gl'/></enums><enums><enum name='A' value='3'/>" ++
  "</enums><groups><group name='G'><enum name='B'/><enum name='A'/></group></groups></registry>"

theorem rearranged_ordered : Rearranged wordedNames orderedRoot rearrangedRoot where
  name := rfl
  attributes := rfl
  children := by
    -- first the blocks are put in order one by one, then the blocks themselves
    refine ⟨[.element "enums" [] [
        .element "enum" [("name", "B"), ("value", "2")] [],
        .element "enum" [("name", "A"), ("value", "1"), ("api", "gl")] []],
      .element "groups" [] [.element "group" [("name", "G")]
        [.element "enum" [("name", "B")] [], .element "enum" [("name", "A")] []]],
      .element "enums" [] [.element "enum" [("name", "A"), ("value", "3")] []],
      .element "feature" [("api", "gl"), ("number", "1.0")] [.element "require" [] [.element "enum" [("name", "A")] []]],
      .element "commands" [] [
        .element "command" [] [.element "proto" [] [.text "int ", .element "name" [] [.text "g"]]],
        .element "command" [] [.element "proto" [] [.text "void ", .element "name" [] [.text "f"]]]]], ?_, by decide⟩
    refine .cons (.block (by decide) (by decide) (by decide)) (.cons ?_ (.cons (.refl ..) (.cons (.refl ..) (.cons ?_ .nil))))
    · exact .element (.cons (.block (by decide) (by decide) (by decide)) .nil) (.inl rfl) fun h => absurd h (by decide)
    · exact .block (by decide) (by decide) (by decide)
  features := .cons (.refl ..) .nil
  declarations name := by
    have hnone : ∀ {root : Element}, name ≠ "A" → name ≠ "B" →
        (∀ e ∈ declarationsIn root, e.attribute? "name" = some "A" ∨ e.attribute? "name" = some "B") →
        declarationsOf root name = [] := by
      intro root hA hB hnames
      refine List.filter_eq_nil_iff.2 fun e he => ?_
      rcases hnames e he with h | h <;> simp [h, Ne.symm hA, Ne.symm hB]
    by_cases hA : name = "A"
    · subst hA
      exact .cons (.refl ..) (.cons (.refl ..) .nil)
    · by_cases hB : name = "B"
      · subst hB
        exact .cons (.refl ..) .nil
      · rw [hnone hA hB (by decide), hnone hA hB (by decide)]
        exact .nil

set_option maxRecDepth 20000 in
theorem ofDocument_rearranged_ordered :
    Element.ofDocument orderedDocument = .ok orderedRoot ∧ Element.ofDocument rearrangedDocument = .ok rearrangedRoot ∧
    Rearranged wordedNames orderedRoot rearrangedRoot ∧
    ∃ r r', ofDocument ⟨"gl", none⟩ orderedDocument = .ok r ∧ ofDocument ⟨"gl", none⟩ rearrangedDocument = .ok r' ∧
      { r with digest := none } = { r' with digest := none } ∧ (r.constants.get? "A").map (·.value) = some 3 := by
  have hroot : Element.ofDocument orderedDocument = .ok orderedRoot := by
    rw [Element.ofDocument_of_toList (show orderedDocument.toList = _ from toList_fourLines ..)]
    decide +kernel
  have hother : Element.ofDocument rearrangedDocument = .ok rearrangedRoot := by
    rw [Element.ofDocument_of_toList (show rearrangedDocument.toList = _ from toList_fourLines ..)]
    decide +kernel
  obtain ⟨haccepted, hsame⟩ := ofDocument_rearranged hroot hother rearranged_ordered ⟨"gl", none⟩
  have hread : (ofRoot ⟨"gl", none⟩ orderedRoot).map (fun r => (r.constants.get? "A").map (·.value)) = .ok (some 3) := by
    decide +kernel
  cases h : ofRoot ⟨"gl", none⟩ orderedRoot with
  | error fault =>
    rw [h] at hread
    cases hread
  | ok found =>
    rw [h] at hread
    have hdocument := (ofDocument_eq_ok hroot).2 ⟨found, h, rfl⟩
    obtain ⟨r', hr'⟩ := haccepted.1 ⟨_, hdocument⟩
    exact ⟨hroot, hother, rearranged_ordered, _, r', hdocument, hr', hsame _ r' hdocument hr', Except.ok.inj hread⟩

/-! ## Types as texts -/

/-- A type with a group in it, which is text like all else there. -/
def wordsDocument : String :=
  "<registry><commands><command><proto><group>A<b>B</b></group> <name>f</name></proto></command></commands></registry>"

def movedWordsDocument : String :=
  "<registry><commands><command><proto><group><b>B</b>A</group> <name>f</name></proto></command></commands></registry>"

/-- The root of such a document, around what the group holds. -/
def wordsRoot (words : List Node) : Element :=
  ⟨"registry", [], [.element "commands" [] [.element "command" [] [.element "proto" []
    [.element "group" [] words, .text " ", .element "name" [] [.text "f"]]]]]⟩

theorem rearranged_words {words moved : List Node} (h : words.Perm moved) :
    Rearranged [] (wordsRoot words) (wordsRoot moved) where
  name := rfl
  attributes := rfl
  children := by
    refine ⟨(wordsRoot moved).children, .cons (.element (.cons ?_ .nil) (.inl rfl) nofun) .nil, .refl _⟩
    refine .element (.cons (.element ?_ (.inl rfl) nofun) .nil) (.inl rfl) nofun
    exact .cons (.block (by decide) (by decide) h) (movedNodes_refl [] _)
  features := .nil
  declarations _ := .nil

/-- What is moved in a block that is part of a type is another type: `AB` is not `BA`. -/
theorem ofDocument_ne_moved_words :
    ∃ root other, Element.ofDocument wordsDocument = .ok root ∧ Element.ofDocument movedWordsDocument = .ok other ∧
      Rearranged [] root other ∧
      ∃ r r', ofDocument ⟨"gl", none⟩ wordsDocument = .ok r ∧ ofDocument ⟨"gl", none⟩ movedWordsDocument = .ok r' ∧
        { r with digest := none } ≠ { r' with digest := none } := by
  have hroot : Element.ofDocument wordsDocument =
      .ok (wordsRoot [.text "A", .element "b" [] [.text "B"]]) := by
    rw [Element.ofDocument_of_toList (show wordsDocument.toList = _ from String.toList_ofList)]
    decide +kernel
  have hother : Element.ofDocument movedWordsDocument =
      .ok (wordsRoot [.element "b" [] [.text "B"], .text "A"]) := by
    rw [Element.ofDocument_of_toList (show movedWordsDocument.toList = _ from String.toList_ofList)]
    decide +kernel
  have hread : ∃ r r', ofRoot ⟨"gl", none⟩ (wordsRoot [.text "A", .element "b" [] [.text "B"]]) = .ok r ∧
      ofRoot ⟨"gl", none⟩ (wordsRoot [.element "b" [] [.text "B"], .text "A"]) = .ok r' ∧
      r.commands ≠ r'.commands :=
    ⟨⟨.empty, .empty, .ofList [("f", ⟨"f", ⟨"AB", none⟩, []⟩)], [], none⟩,
      ⟨.empty, .empty, .ofList [("f", ⟨"f", ⟨"BA", none⟩, []⟩)], [], none⟩, by decide +kernel, by decide +kernel,
      by decide +kernel⟩
  obtain ⟨r, r', hr, hr', hne⟩ := hread
  refine ⟨_, _, hroot, hother, rearranged_words (by decide), _, _, (ofDocument_eq_ok hroot).2 ⟨r, hr, rfl⟩,
    (ofDocument_eq_ok hother).2 ⟨r', hr', rfl⟩, fun heq => hne ?_⟩
  have hcommands := congrArg Registry.commands heq
  exact hcommands

end ApiProfile.Registry
