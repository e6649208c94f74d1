import ApiProfile.Proofs.Fallible
import ApiProfile.Proofs.Markup.Building
import ApiProfile.Registry.Document
/-!
# What a selection leaves unread

A document may hold features of other APIs, and features may hold blocks for other APIs and other
sub-profiles. We cut all of them out of a document (`Selection.trim`) and show that reading what is left
gives the same registry or the same failure, so nothing in them is looked at. What is left is read
whole: its features come one by one in document order, each with all the names in its blocks.
-/

namespace ApiProfile

open Markup (Element Node)

/-! ## Cutting -/

namespace Selection

/-- The element names an API, and another one than the selected. -/
def foreign (s : Selection) (e : Element) : Bool :=
  (e.attribute? "api").any (· ≠ s.api)

/-- The block names another API, or a sub-profile that is not the selected one. -/
def rejects (s : Selection) (block : Element) : Bool :=
  s.foreign block || (block.attribute? "profile").any (some · ≠ s.profile)

def keepsBlock (s : Selection) (e : Element) : Bool :=
  !((e.name = "require" || e.name = "remove") && s.rejects e)

/-- The feature without the blocks that the selection rejects. -/
def trimFeature (s : Selection) (feature : Element) : Element :=
  { feature with children := feature.children.filter fun node => node.element?.all s.keepsBlock }

/-- What is left of an element below the top. -/
def trimChild? (s : Selection) (e : Element) : Option Element :=
  if e.name = "feature" then (if s.foreign e then none else some (s.trimFeature e)) else some e

/-- The document without the features of other APIs and without the blocks of its features that the
selection rejects. -/
def trim (s : Selection) (root : Element) : Element :=
  { root with children := root.children.filterMap fun node =>
      match node.element? with
      | some e => (s.trimChild? e).map Element.toNode
      | none => some node }

theorem admits_eq (s : Selection) (e : Element) : s.admits e = !s.rejects e := by
  unfold admits rejects foreign
  cases e.attribute? "api" <;> cases e.attribute? "profile" <;> simp [eq_comm]

/-! ## The elements left -/

theorem elements_trimFeature (s : Selection) (feature : Element) :
    (s.trimFeature feature).elements = feature.elements.filter s.keepsBlock := by
  unfold trimFeature Element.elements
  rw [List.filterMap_filter, List.filter_filterMap]
  congr 1
  funext node
  cases node with
  | text content => rfl
  | element name attributes children =>
    simp only [Node.element?, Option.all_some, Option.filter_some]
    rfl

theorem elements_trim (s : Selection) (root : Element) :
    (s.trim root).elements = root.elements.filterMap s.trimChild? := by
  unfold trim Element.elements
  rw [List.filterMap_filterMap, List.filterMap_filterMap]
  congr 1
  funext node
  cases node with
  | text content => rfl
  | element name attributes children =>
    simp only [Node.element?, Option.bind_some]
    cases s.trimChild? ⟨name, attributes, children⟩ <;> rfl

/-- Only features are cut. -/
theorem elementsNamed_trim (s : Selection) (root : Element) {name : String} (hname : name ≠ "feature") :
    (s.trim root).elementsNamed name = root.elementsNamed name := by
  unfold Element.elementsNamed
  rw [elements_trim]
  induction root.elements with
  | nil => rfl
  | cons e es ih =>
    by_cases he : e.name = "feature"
    · have hother : e.name ≠ name := fun h => hname (h.symm.trans he)
      rw [List.filter_cons_of_neg (by simpa using hother)]
      cases hf : s.foreign e with
      | true =>
        rw [List.filterMap_cons_none (by simp [trimChild?, he, hf]), ih]
      | false =>
        have hkept : (s.trimFeature e).name ≠ name := hother
        rw [List.filterMap_cons_some (show s.trimChild? e = some (s.trimFeature e) by simp [trimChild?, he, hf]),
          List.filter_cons_of_neg (by simpa using hkept), ih]
    · rw [List.filterMap_cons_some (show s.trimChild? e = some e from if_neg he), List.filter_cons, List.filter_cons, ih]

theorem features_trim (s : Selection) (root : Element) :
    (s.trim root).elementsNamed "feature" =
      ((root.elementsNamed "feature").filter fun e => !s.foreign e).map s.trimFeature := by
  unfold Element.elementsNamed
  rw [elements_trim]
  induction root.elements with
  | nil => rfl
  | cons e es ih =>
    by_cases he : e.name = "feature"
    · cases hf : s.foreign e with
      | true =>
        rw [List.filterMap_cons_none (by simp [trimChild?, he, hf]), ih]
        simp [he, hf]
      | false =>
        have hkept : (s.trimFeature e).name = "feature" := he
        rw [List.filterMap_cons_some (show s.trimChild? e = some (s.trimFeature e) by simp [trimChild?, he, hf]),
          List.filter_cons_of_pos (by simpa using hkept), ih]
        simp [he, hf]
    · rw [List.filterMap_cons_some (show s.trimChild? e = some e from if_neg he),
        List.filter_cons_of_neg (by simpa using he), ih, List.filter_cons_of_neg (by simpa using he)]

/-- The blocks left are the admitted ones, and all of those. -/
theorem blocks_trimFeature (s : Selection) (feature : Element) {name : String}
    (hname : name = "require" ∨ name = "remove") :
    (s.trimFeature feature).elementsNamed name = (feature.elementsNamed name).filter s.admits := by
  unfold Element.elementsNamed
  rw [elements_trimFeature, List.filter_filter, List.filter_filter]
  refine List.filter_congr fun block _ => ?_
  unfold keepsBlock
  rw [admits_eq]
  by_cases hb : block.name = name
  · rcases hname with rfl | rfl <;> simp [hb]
  · simp [hb]

end Selection

namespace Registry

/-! ## Reading what is left -/

theorem readMentions_trimFeature (s : Selection) (feature : Element) {name : String}
    (hname : name = "require" ∨ name = "remove") :
    readMentions s (s.trimFeature feature) name = readMentions s feature name := by
  unfold readMentions
  rw [s.blocks_trimFeature feature hname, List.filter_filter]
  simp

theorem readFeature_trimFeature (s : Selection) (feature : Element) :
    readFeature s (s.trimFeature feature) = readFeature s feature := by
  unfold readFeature
  rw [readMentions_trimFeature s feature (.inl rfl), readMentions_trimFeature s feature (.inr rfl)]
  rfl

/-- A feature of another API gives nothing, whatever it holds. -/
theorem readFeature_of_foreign {s : Selection} {feature : Element} (h : s.foreign feature = true) :
    readFeature s feature = .ok none := by
  unfold Selection.foreign at h
  cases hapi : feature.attribute? "api" with
  | none =>
    rw [hapi] at h
    cases h
  | some api =>
    have hne : api ≠ s.api := by simpa [hapi] using h
    unfold readFeature Element.requiredAttribute
    rw [hapi]
    exact if_pos hne

theorem readFeatures_eq (s : Selection) (root : Element) :
    readFeatures s root = ((root.elementsNamed "feature").mapM (readFeature s)).map (List.filterMap id) := by
  unfold readFeatures
  cases (root.elementsNamed "feature").mapM (readFeature s) <;> rfl

theorem readFeatures_trim (s : Selection) (root : Element) :
    readFeatures s (s.trim root) = readFeatures s root := by
  have hforeign : ∀ feature, (!s.foreign feature) = false → readFeature s feature = .ok none := fun feature h =>
    readFeature_of_foreign (by simpa using h)
  rw [readFeatures_eq, readFeatures_eq, s.features_trim, List.mapM_map, ← mapM_filter_of_none hforeign]
  simp only [Function.comp_def, readFeature_trimFeature]

/-- Nothing that is cut is read. -/
theorem ofRoot_trim (s : Selection) (root : Element) : ofRoot s (s.trim root) = ofRoot s root := by
  unfold ofRoot readConstants readGroups readCommands
  rw [s.elementsNamed_trim root (by decide), s.elementsNamed_trim root (by decide),
    s.elementsNamed_trim root (by decide), readFeatures_trim]

/-! ## What is left is read whole -/

/-- The kind of entry that an element of a block stands for; a `type` stands for none. -/
def kindOf? : String → Option EntryKind
  | "enum" => some .constant
  | "command" => some .command
  | _ => none

def mention? (e : Element) : Option Mention := do
  let kind ← kindOf? e.name
  let name ← e.attribute? "name"
  return ⟨name, kind⟩

/-- The names in all blocks of a feature, in document order. -/
def mentionsIn (feature : Element) (block : String) : List Mention :=
  ((feature.elementsNamed block).flatMap (·.elements)).filterMap mention?

/-- A feature as an element of a document announces it. -/
structure Announces (e : Element) (feature : Feature) : Prop where
  version : ∃ number, e.attribute? "number" = some number ∧ Version.parse number = .ok feature.version
  additions : feature.additions = mentionsIn e "require"
  removals : feature.removals = mentionsIn e "remove"

theorem mention?_of_readMention {e : Element} {mention : Option Mention} (h : readMention e = .ok mention) :
    mention? e = mention := by
  obtain ⟨name, hname, h⟩ := bind_eq_ok.1 h
  rw [Element.requiredAttribute_eq_ok] at hname
  unfold mention? kindOf?
  split at h <;> rename_i hkind <;> cases h <;> rw [hkind, hname] <;> rfl

theorem readMentions_eq_ok {s : Selection} {feature : Element} {block : String} {mentions : List Mention}
    (h : readMentions s feature block = .ok mentions) :
    mentions = (((feature.elementsNamed block).filter s.admits).flatMap (·.elements)).filterMap mention? := by
  obtain ⟨found, hfound, h⟩ := bind_eq_ok.1 h
  cases h
  have hread := (mapM_eq_ok.1 hfound).imp fun _ _ h => mention?_of_readMention h
  rw [← List.forall₂_map_left_iff (f := mention?), List.forall₂_eq_eq_eq] at hread
  rw [← hread, List.filterMap_map]
  rfl

/-- A feature that is left announces what is read of it. -/
theorem announces_of_readFeature {s : Selection} {feature : Element} (hown : s.foreign feature = false)
    {found : Option Feature} (h : readFeature s (s.trimFeature feature) = .ok found) :
    ∃ f, found = some f ∧ Announces (s.trimFeature feature) f := by
  have hadmitted : ∀ block, block = "require" ∨ block = "remove" →
      ((s.trimFeature feature).elementsNamed block).filter s.admits =
        (s.trimFeature feature).elementsNamed block := by
    intro block hblock
    rw [s.blocks_trimFeature feature hblock, List.filter_filter]
    simp
  obtain ⟨api, hapi, h⟩ := bind_eq_ok.1 h
  rw [Element.requiredAttribute_eq_ok] at hapi
  have hsame : api = s.api := by
    have hattribute : feature.attribute? "api" = some api := hapi
    simpa [Selection.foreign, hattribute] using hown
  rw [if_neg (not_not_intro hsame)] at h
  obtain ⟨number, hnumber, h⟩ := bind_eq_ok.1 h
  obtain ⟨version, hversion, h⟩ := bind_eq_ok.1 h
  obtain ⟨additions, hadditions, h⟩ := bind_eq_ok.1 h
  obtain ⟨removals, hremovals, h⟩ := bind_eq_ok.1 h
  cases h
  refine ⟨_, rfl, ⟨number, Element.requiredAttribute_eq_ok.1 hnumber, hversion⟩, ?_, ?_⟩
  · rw [readMentions_eq_ok hadditions, hadmitted _ (.inl rfl)]
    rfl
  · rw [readMentions_eq_ok hremovals, hadmitted _ (.inr rfl)]
    rfl

theorem announces_of_readFeatures {s : Selection} {root : Element} {features : List Feature}
    (h : readFeatures s (s.trim root) = .ok features) :
    List.Forall₂ Announces ((s.trim root).elementsNamed "feature") features := by
  obtain ⟨found, hfound, h⟩ := bind_eq_ok.1 h
  cases h
  refine forall₂_filterMap_id ?_
  rw [s.features_trim, List.forall₂_map_left_iff]
  rw [s.features_trim, List.mapM_map] at hfound
  have hread := mapM_eq_ok.1 hfound
  rw [List.forall₂_iff_get] at hread ⊢
  refine ⟨hread.1, fun i h1 h2 => announces_of_readFeature ?_ (hread.2 i h1 h2)⟩
  simpa using (List.mem_filter.1 (List.get_mem _ ⟨i, h1⟩)).2

/-- What a selection cuts out of a document changes neither the registry nor the failure. The registry has
a feature for each one that is left, in document order, with all the names in its blocks. -/
theorem ofDocument_trimmed (s : Selection) (root : Element) :
    ofRoot s (s.trim root) = ofRoot s root ∧
    (∀ document trimmed, Element.ofDocument document = .ok root → Element.ofDocument trimmed = .ok (s.trim root) →
      ofDocument s trimmed = (ofDocument s document).map fun r => { r with digest := some (.ofText trimmed) }) ∧
    ∀ r, ofRoot s root = .ok r → List.Forall₂ Announces ((s.trim root).elementsNamed "feature") r.features := by
  refine ⟨ofRoot_trim s root, fun document trimmed hdocument htrimmed => ?_, fun r h => ?_⟩
  · unfold ofDocument
    rw [hdocument, htrimmed]
    dsimp only [bind, Except.bind]
    rw [ofRoot_trim]
    cases ofRoot s root <;> rfl
  · rw [← ofRoot_trim] at h
    obtain ⟨constants, -, h⟩ := bind_eq_ok.1 h
    obtain ⟨groups, -, h⟩ := bind_eq_ok.1 h
    obtain ⟨commands, -, h⟩ := bind_eq_ok.1 h
    obtain ⟨features, hfeatures, h⟩ := bind_eq_ok.1 h
    cases h
    exact announces_of_readFeatures hfeatures

/-- A feature of another API has no version, and blocks for others hold what is no name. -/
def mixedDocument : String :=
  "<registry><enums><enum name='A' value='1'/></enums><feature api='vk'><remove><other/></remove></feature>
  <feature api='gl' number='1.0'><require profile='core'><other/></require><require><type name='T'/>
  <enum name='A'/></require><remove api='vk'><command/></remove></feature></registry>"

def mixedRoot : Element :=
  ⟨"registry", [], [
    .element "enums" [] [.element "enum" [("name", "A"), ("value", "1")] []],
    .element "feature" [("api", "vk")] [.element "remove" [] [.element "other" [] []]],
    .text "\n  ",
    .element "feature" [("api", "gl"), ("number", "1.0")] [
      .element "require" [("profile", "core")] [.element "other" [] []],
      .element "require" [] [.element "type" [("name", "T")] [], .text "\n  ", .element "enum" [("name", "A")] []],
      .element "remove" [("api", "vk")] [.element "command" [] []]]]⟩

def trimmedDocument : String :=
  "<registry><enums><enum name='A' value='1'/></enums>
  <feature api='gl' number='1.0'><require><type name='T'/>
  <enum name='A'/></require></feature></registry>"

set_option maxRecDepth 10000 in
theorem ofDocument_trimmed_mixed :
    Element.ofDocument mixedDocument = .ok mixedRoot ∧
    Element.ofDocument trimmedDocument = .ok (Selection.trim ⟨"gl", none⟩ mixedRoot) ∧
    ofDocument ⟨"gl", none⟩ trimmedDocument = (ofDocument ⟨"gl", none⟩ mixedDocument).map
      (fun r => { r with digest := some (.ofText trimmedDocument) }) ∧
    ∃ r, ofRoot ⟨"gl", none⟩ mixedRoot = .ok r ∧ r.features = [⟨.two 1 0, [⟨"A", .constant⟩], []⟩] ∧
      List.Forall₂ Announces ((Selection.trim ⟨"gl", none⟩ mixedRoot).elementsNamed "feature") r.features := by
  obtain ⟨-, htexts, hfeatures⟩ := ofDocument_trimmed ⟨"gl", none⟩ mixedRoot
  have hdocument : Element.ofDocument mixedDocument = .ok mixedRoot := by
    rw [Element.ofDocument_of_toList (show mixedDocument.toList = _ from String.toList_ofList)]
    decide +kernel
  have htrimmed : Element.ofDocument trimmedDocument = .ok (Selection.trim ⟨"gl", none⟩ mixedRoot) := by
    rw [Element.ofDocument_of_toList (show trimmedDocument.toList = _ from String.toList_ofList)]
    decide +kernel
  refine ⟨hdocument, htrimmed, htexts _ _ hdocument htrimmed, ?_⟩
  have hread : (ofRoot ⟨"gl", none⟩ mixedRoot).map (·.features) = .ok [⟨.two 1 0, [⟨"A", .constant⟩], []⟩] := by
    decide +kernel
  cases h : ofRoot ⟨"gl", none⟩ mixedRoot with
  | error fault =>
    rw [h] at hread
    cases hread
  | ok r =>
    rw [h] at hread
    exact ⟨r, rfl, Except.ok.inj hread, hfeatures r h⟩

end Registry
end ApiProfile
