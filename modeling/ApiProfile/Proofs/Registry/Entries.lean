import ApiProfile.Proofs.Markup.Building
import ApiProfile.Proofs.Table
import ApiProfile.Proofs.Registry.Declaring
/-!
# Groups and commands as a document declares them

Where every group and every command has the names that it needs, they are read if and only if no two groups and no two
commands of the document share a name, wherever in it they are. Nothing is lost then: the tables hold one entry for each
of them. A repeated group is reported before a repeated command.
-/

namespace ApiProfile.Registry

open Markup (Element)

/-! ## What is declared -/

/-- The groups, in the order of the document. -/
def groupsIn (root : Element) : List Element :=
  (root.elementsNamed "groups").flatMap (·.elementsNamed "group")

/-- The commands, in the order of the document. -/
def commandsIn (root : Element) : List Element :=
  (root.elementsNamed "commands").flatMap (·.elementsNamed "command")

/-- The name in an element that declares one. -/
def declaredName? (e : Element) : Option String :=
  (e.child? "name").map (·.text)

/-- The name of a command is the one that its first prototype declares. -/
def commandName? (e : Element) : Option String :=
  (e.child? "proto").bind declaredName?

def groupNames (root : Element) : List String :=
  (groupsIn root).filterMap (·.attribute? "name")

def commandNames (root : Element) : List String :=
  (commandsIn root).filterMap commandName?

/-- The groups and commands of a document have the names that they need. -/
structure Named (root : Element) : Prop where
  group : ∀ e ∈ groupsIn root, (e.attribute? "name").isSome
  member : ∀ e ∈ groupsIn root, ∀ child ∈ e.elements, (child.attribute? "name").isSome
  prototype : ∀ e ∈ commandsIn root, ∃ proto ∈ e.elementsNamed "proto", (declaredName? proto).isSome
  parameter : ∀ e ∈ commandsIn root, ∀ param ∈ e.elementsNamed "param", (declaredName? param).isSome

/-- A group has the name of its element, and as members the names of the elements in it. -/
structure DeclaresGroup (e : Element) (g : Group) : Prop where
  name : e.attribute? "name" = some g.name
  members : ∀ name, name ∈ g.members ↔ ∃ child ∈ e.elements, child.attribute? "name" = some name

/-- A type is what stands around the name in its element, with the group that the element has. -/
structure DeclaresType (e : Element) (name : String) (type : DeclaredType) : Prop where
  declared : declaredName? e = some name
  text : type.text = typeText name e.text
  group : type.group = e.attribute? "group"

/-- A command has the name and result of its first prototype, and one parameter for each element of one, in order. -/
structure DeclaresCommand (e : Element) (f : Command) : Prop where
  result : ∃ proto, e.child? "proto" = some proto ∧ DeclaresType proto f.name f.result
  parameters : List.Forall₂ (fun param p => DeclaresType param p.name p.type) (e.elementsNamed "param") f.parameters

theorem exists_child? {e child : Element} {name : String} (h : child ∈ e.elementsNamed name) :
    ∃ first, e.child? name = some first := by
  rw [← Option.isSome_iff_exists, Element.child?, ← List.head?_filter]
  exact List.isSome_head?.2 (List.ne_nil_of_mem h)

/-! ## What is read -/

theorem declaresGroup_of_readGroup {e : Element} {g : Group} (h : readGroup e = .ok g) : DeclaresGroup e g := by
  obtain ⟨name, hname, h⟩ := bind_eq_ok.1 h
  obtain ⟨members, hmembers, h⟩ := bind_eq_ok.1 h
  cases h
  have heach := mapM_eq_ok.1 hmembers
  simp only [Element.requiredAttribute_eq_ok] at hname heach
  refine ⟨hname, fun member => ?_⟩
  rw [NameSet.mem_ofList]
  constructor
  · intro hmem
    exact exists_mem_of_forall₂ heach.flip hmem
  · rintro ⟨child, hchild, hmember⟩
    obtain ⟨found, hfound, heq⟩ := exists_mem_of_forall₂ heach hchild
    rw [hmember] at heq
    cases heq
    exact hfound

theorem readTyped_eq_ok {e : Element} {name : String} {type : DeclaredType} :
    readTyped e = .ok (name, type) ↔ DeclaresType e name type := by
  unfold readTyped
  simp only [bind_eq_ok, Element.requiredChild_eq_ok]
  constructor
  · rintro ⟨declared, hdeclared, h⟩
    cases h
    exact ⟨Option.map_eq_some_iff.2 ⟨declared, hdeclared, rfl⟩, rfl, rfl⟩
  · rintro ⟨hname, htext, hgroup⟩
    obtain ⟨declared, hdeclared, rfl⟩ := Option.map_eq_some_iff.1 hname
    refine ⟨declared, hdeclared, ?_⟩
    rw [← htext, ← hgroup]
    rfl

theorem readParameter_eq_ok {e : Element} {p : DeclaredParameter} :
    readParameter e = .ok p ↔ DeclaresType e p.name p.type := by
  rw [← readTyped_eq_ok]
  unfold readParameter
  rw [bind_eq_ok]
  constructor
  · rintro ⟨_, h, hp⟩
    cases hp
    exact h
  · exact fun h => ⟨_, h, rfl⟩

theorem readCommand_eq_ok {e : Element} {f : Command} : readCommand e = .ok f ↔ DeclaresCommand e f := by
  unfold readCommand
  simp only [bind_eq_ok, Element.requiredChild_eq_ok, mapM_eq_ok, readParameter_eq_ok]
  constructor
  · rintro ⟨proto, hproto, ⟨name, result⟩, htyped, parameters, hparameters, hf⟩
    cases hf
    exact ⟨⟨proto, hproto, readTyped_eq_ok.1 htyped⟩, hparameters⟩
  · rintro ⟨⟨proto, hproto, hresult⟩, hparameters⟩
    exact ⟨proto, hproto, (f.name, f.result), readTyped_eq_ok.2 hresult, f.parameters, hparameters, rfl⟩

theorem exists_readGroup {e : Element} (hname : (e.attribute? "name").isSome)
    (hmembers : ∀ child ∈ e.elements, (child.attribute? "name").isSome) : ∃ g, readGroup e = .ok g := by
  have hrequired : ∀ {e : Element}, (e.attribute? "name").isSome → ∃ name, e.requiredAttribute "name" = .ok name := by
    intro e h
    obtain ⟨name, hname⟩ := Option.isSome_iff_exists.1 h
    exact ⟨name, Element.requiredAttribute_eq_ok.2 hname⟩
  obtain ⟨name, hname⟩ := hrequired hname
  obtain ⟨members, hmembers⟩ := exists_mapM_eq_ok fun child hchild => hrequired (hmembers child hchild)
  exact ⟨_, bind_eq_ok.2 ⟨name, hname, bind_eq_ok.2 ⟨members, hmembers, rfl⟩⟩⟩

theorem exists_readCommand {e proto : Element} (hproto : e.child? "proto" = some proto)
    (hname : (declaredName? proto).isSome) (hparams : ∀ param ∈ e.elementsNamed "param", (declaredName? param).isSome) :
    ∃ f, readCommand e = .ok f := by
  obtain ⟨name, hname⟩ := Option.isSome_iff_exists.1 hname
  obtain ⟨parameters, hparameters⟩ : ∃ parameters, (e.elementsNamed "param").mapM readParameter = .ok parameters := by
    refine exists_mapM_eq_ok fun param hparam => ?_
    obtain ⟨name, hname⟩ := Option.isSome_iff_exists.1 (hparams param hparam)
    exact ⟨⟨name, ⟨typeText name param.text, param.attribute? "group"⟩⟩, readParameter_eq_ok.2 ⟨hname, rfl, rfl⟩⟩
  refine ⟨⟨name, ⟨typeText name proto.text, proto.attribute? "group"⟩, parameters⟩, readCommand_eq_ok.2 ⟨?_, ?_⟩⟩
  · exact ⟨proto, hproto, hname, rfl, rfl⟩
  · simpa only [mapM_eq_ok, readParameter_eq_ok] using hparameters

/-! ## The groups and the commands of a document -/

/-- The parts of a document in which names must differ, the groups before the commands. -/
def readEntries (root : Element) : Except Failure (Table Group × Table Command) := do
  let groups ← readGroups root
  let commands ← readCommands root
  return (groups, commands)

theorem ofRoot_eq_readEntries (s : Selection) (root : Element) :
    ofRoot s root = (do
      let constants ← readConstants root
      let (groups, commands) ← readEntries root
      let features ← readFeatures s root
      return ⟨constants, groups, commands, features, none⟩) := by
  unfold ofRoot readEntries
  simp only [bind_assoc, pure_bind]

theorem readGroups_distinct {root : Element} (h : Named root) :
    ((groupNames root).Nodup →
      ∃ groups, readGroups root = .ok groups ∧ HoldsEach DeclaresGroup (·.name) (groupsIn root) groups) ∧
    (¬(groupNames root).Nodup →
      ∃ name, FirstRepeated (groupNames root) name ∧ readGroups root = .error (.duplicateGroup name)) :=
  readUnique_distinct (fun e he => exists_readGroup (h.group e he) (h.member e he))
    fun _ _ hg => ⟨declaresGroup_of_readGroup hg, (declaresGroup_of_readGroup hg).name⟩

theorem readCommands_distinct {root : Element} (h : Named root)
    (hfirst : ∀ e ∈ commandsIn root, ∀ proto ∈ e.child? "proto", (declaredName? proto).isSome) :
    ((commandNames root).Nodup →
      ∃ commands, readCommands root = .ok commands ∧ HoldsEach DeclaresCommand (·.name) (commandsIn root) commands) ∧
    (¬(commandNames root).Nodup →
      ∃ name, FirstRepeated (commandNames root) name ∧ readCommands root = .error (.duplicateCommand name)) := by
  refine readUnique_distinct (fun e he => ?_) fun e f hf => ?_
  · obtain ⟨proto, hproto, -⟩ := h.prototype e he
    obtain ⟨first, hfound⟩ := exists_child? hproto
    exact exists_readCommand hfound (hfirst e he first hfound) (h.parameter e he)
  · have hdeclares := readCommand_eq_ok.1 hf
    obtain ⟨proto, hproto, hresult⟩ := hdeclares.result
    exact ⟨hdeclares, by rw [commandName?, hproto, Option.bind_some, hresult.declared]⟩

/-- The tables hold what is read of the groups and the commands, and what is wrong with these is what is wrong with the
document, if its constants are read. -/
theorem ofDocument_readEntries {document : String} {root : Element} (hroot : Element.ofDocument document = .ok root)
    (s : Selection) :
    (∀ r, ofDocument s document = .ok r → readEntries root = .ok (r.groups, r.commands)) ∧
    ∀ constants fault, readConstants root = .ok constants → readEntries root = .error fault →
      ofDocument s document = .error fault := by
  constructor
  · intro r h
    obtain ⟨found, hfound, rfl⟩ := (ofDocument_eq_ok hroot).1 h
    obtain ⟨-, hgroups, hcommands, -⟩ := ofRoot_eq_ok.1 hfound
    exact bind_eq_ok.2 ⟨_, hgroups, bind_eq_ok.2 ⟨_, hcommands, rfl⟩⟩
  · intro constants fault hconstants hfault
    refine bind_eq_error.2 (.inr ⟨root, hroot, bind_eq_error.2 (.inl ?_)⟩)
    rw [ofRoot_eq_readEntries]
    exact bind_eq_error.2 (.inr ⟨constants, hconstants, bind_eq_error.2 (.inl hfault)⟩)

/-- All is read, or a group comes twice, or no group does but a command. -/
theorem readEntries_cases {root : Element} (hnamed : Named root)
    (hfirst : ∀ e ∈ commandsIn root, ∀ proto ∈ e.child? "proto", (declaredName? proto).isSome) :
    ((groupNames root).Nodup ∧ (commandNames root).Nodup ∧ ∃ groups commands,
      readEntries root = .ok (groups, commands) ∧ HoldsEach DeclaresGroup (·.name) (groupsIn root) groups ∧
      HoldsEach DeclaresCommand (·.name) (commandsIn root) commands) ∨
    (¬(groupNames root).Nodup ∧
      ∃ name, FirstRepeated (groupNames root) name ∧ readEntries root = .error (.duplicateGroup name)) ∨
    ((groupNames root).Nodup ∧ ¬(commandNames root).Nodup ∧
      ∃ name, FirstRepeated (commandNames root) name ∧ readEntries root = .error (.duplicateCommand name)) := by
  obtain ⟨hgroups, hgroupTwice⟩ := readGroups_distinct hnamed
  obtain ⟨hcommands, hcommandTwice⟩ := readCommands_distinct hnamed hfirst
  by_cases hg : (groupNames root).Nodup
  · obtain ⟨groups, hgroups, hgroupsHold⟩ := hgroups hg
    by_cases hc : (commandNames root).Nodup
    · obtain ⟨commands, hcommands, hcommandsHold⟩ := hcommands hc
      refine .inl ⟨hg, hc, groups, commands, ?_, hgroupsHold, hcommandsHold⟩
      exact bind_eq_ok.2 ⟨groups, hgroups, bind_eq_ok.2 ⟨commands, hcommands, rfl⟩⟩
    · obtain ⟨name, hname, hfault⟩ := hcommandTwice hc
      refine .inr (.inr ⟨hg, hc, name, hname, ?_⟩)
      exact bind_eq_error.2 (.inr ⟨groups, hgroups, bind_eq_error.2 (.inl hfault)⟩)
  · obtain ⟨name, hname, hfault⟩ := hgroupTwice hg
    exact .inr (.inl ⟨hg, name, hname, bind_eq_error.2 (.inl hfault)⟩)

/-- Groups and commands that have the names they need are read if and only if no name comes twice, and then the tables
have one entry for each of them; else the first repeated name of a group is reported, and if there is none, the first
repeated name of a command. -/
theorem readEntries_distinct {root : Element} (hnamed : Named root)
    (hfirst : ∀ e ∈ commandsIn root, ∀ proto ∈ e.child? "proto", (declaredName? proto).isSome) :
    ((∃ entries, readEntries root = .ok entries) ↔ (groupNames root).Nodup ∧ (commandNames root).Nodup) ∧
    (∀ groups commands, readEntries root = .ok (groups, commands) →
      HoldsEach DeclaresGroup (·.name) (groupsIn root) groups ∧
      HoldsEach DeclaresCommand (·.name) (commandsIn root) commands) ∧
    (¬(groupNames root).Nodup →
      ∃ name, FirstRepeated (groupNames root) name ∧ readEntries root = .error (.duplicateGroup name)) ∧
    ((groupNames root).Nodup → ¬(commandNames root).Nodup →
      ∃ name, FirstRepeated (commandNames root) name ∧ readEntries root = .error (.duplicateCommand name)) ∧
    ∀ document, Element.ofDocument document = .ok root → ∀ s,
      (∀ r, ofDocument s document = .ok r → readEntries root = .ok (r.groups, r.commands)) ∧
      ∀ constants fault, readConstants root = .ok constants → readEntries root = .error fault →
        ofDocument s document = .error fault := by
  rcases readEntries_cases hnamed hfirst with ⟨hg, hc, groups, commands, h, hhold⟩ | ⟨hg, hfault⟩ | ⟨hg, hc, hfault⟩
  · refine ⟨⟨fun _ => ⟨hg, hc⟩, fun _ => ⟨_, h⟩⟩, ?_, fun hg' => absurd hg hg', fun _ hc' => absurd hc hc',
      fun _ hroot s => ofDocument_readEntries hroot s⟩
    intro groups' commands' h'
    rw [h] at h'
    cases h'
    exact hhold
  · obtain ⟨name, hname, h⟩ := hfault
    refine ⟨?_, ?_, fun _ => ⟨name, hname, h⟩, fun hg' => absurd hg' hg,
      fun _ hroot s => ofDocument_readEntries hroot s⟩
    · rw [h]
      exact ⟨nofun, fun ⟨hg', _⟩ => absurd hg' hg⟩
    · rw [h]
      nofun
  · obtain ⟨name, hname, h⟩ := hfault
    refine ⟨?_, ?_, fun hg' => absurd hg hg', fun _ _ => ⟨name, hname, h⟩,
      fun _ hroot s => ofDocument_readEntries hroot s⟩
    · rw [h]
      exact ⟨nofun, fun ⟨_, hc'⟩ => absurd hc' hc⟩
    · rw [h]
      nofun

/-- A group and a command, and behind them a group and a command of other names, or of the same. -/
def twoBlocks (group command : String) : Element :=
  ⟨"registry", [], [
    .element "groups" [] [.element "group" [("name", "G")]
      [.element "enum" [("name", "B")] [], .element "enum" [("name", "A")] [], .element "enum" [("name", "B")] []]],
    .element "commands" [] [.element "command" [] [
      .element "proto" [] [.text "void ", .element "name" [] [.text "f"]],
      .element "param" [("group", "G")] [.text "int ", .element "name" [] [.text "x"]],
      .element "param" [] [.text "int ", .element "name" [] [.text "y"]]]],
    .element "groups" [] [.element "group" [("name", group)] []],
    .element "commands" [] [.element "command" [] [
      .element "proto" [] [.text "void ", .element "name" [] [.text command]]]]]⟩

theorem readEntries_distinct_twoBlocks :
    (∃ groups commands, readEntries (twoBlocks "H" "g") = .ok (groups, commands) ∧
      HoldsEach DeclaresGroup (·.name) (groupsIn (twoBlocks "H" "g")) groups ∧
      HoldsEach DeclaresCommand (·.name) (commandsIn (twoBlocks "H" "g")) commands) ∧
    readEntries (twoBlocks "G" "f") = .error (.duplicateGroup "G") ∧
    readEntries (twoBlocks "H" "f") = .error (.duplicateCommand "f") := by
  have hdistinct : Named (twoBlocks "H" "g") := by constructor <;> decide +kernel
  have hgroups : Named (twoBlocks "G" "f") := by constructor <;> decide +kernel
  have hcommands : Named (twoBlocks "H" "f") := by constructor <;> decide +kernel
  refine ⟨?_, ?_, ?_⟩
  · obtain ⟨hread, hhold, -⟩ := readEntries_distinct hdistinct (by decide +kernel)
    obtain ⟨⟨groups, commands⟩, h⟩ := hread.2 (by decide +kernel)
    exact ⟨groups, commands, h, hhold groups commands h⟩
  · obtain ⟨-, -, hfault, -⟩ := readEntries_distinct hgroups (by decide +kernel)
    obtain ⟨name, hname, h⟩ := hfault (by decide +kernel)
    have hfirst : FirstRepeated (groupNames (twoBlocks "G" "f")) "G" :=
      ⟨["G"], [], by decide +kernel, by decide, by decide⟩
    rw [h, hname.unique hfirst]
  · obtain ⟨-, -, -, hfault, -⟩ := readEntries_distinct hcommands (by decide +kernel)
    obtain ⟨name, hname, h⟩ := hfault (by decide +kernel) (by decide +kernel)
    have hfirst : FirstRepeated (commandNames (twoBlocks "H" "f")) "f" :=
      ⟨["f"], [], by decide +kernel, by decide, by decide⟩
    rw [h, hname.unique hfirst]

/-! ## A command with two prototypes -/

/-- A command whose first prototype declares no name, and the second one does. -/
def twoPrototypes : Element :=
  ⟨"registry", [], [.element "commands" [] [.element "command" [] [
    .element "proto" [] [.text "int"],
    .element "proto" [] [.text "void ", .element "name" [] [.text "f"]]]]]⟩

def twoPrototypesDocument : String :=
  "<registry><commands><command><proto>int</proto><proto>void <name>f</name></proto></command></commands></registry>"

set_option maxRecDepth 20000 in
/-- Only the first prototype counts: the single command of a document is not read for the name in its second one. -/
theorem not_readEntries_twoPrototypes :
    Element.ofDocument twoPrototypesDocument = .ok twoPrototypes ∧ Named twoPrototypes ∧
    groupsIn twoPrototypes = [] ∧ (commandsIn twoPrototypes).length = 1 ∧
    ¬∃ entries, readEntries twoPrototypes = .ok entries := by
  have hroot : Element.ofDocument twoPrototypesDocument = .ok twoPrototypes := by
    rw [Element.ofDocument_of_toList (show twoPrototypesDocument.toList = _ from String.toList_ofList)]
    decide +kernel
  refine ⟨hroot, by constructor <;> decide +kernel, rfl, rfl, ?_⟩
  rintro ⟨entries, h⟩
  exact ne_ok_of_isOk (by decide +kernel) entries h

end ApiProfile.Registry
