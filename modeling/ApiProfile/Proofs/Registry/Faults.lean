import ApiProfile.Proofs.Fallible
import ApiProfile.Proofs.Markup.Nesting
import ApiProfile.Registry.Document
import ApiProfile.TypeTable
/-!
# Faults of documents and tables

What is wrong with the markup of a document is reported with its line, and so is a column of a type table that is
no type. Everything else that is wrong with a document or a table is reported without a place. None of them names a
file.
-/

namespace ApiProfile

/-- Whether a failure is or holds the place of another one: a line, a file, or a file that is not there. -/
def Failure.namesPlace : Failure → Bool
  | documentNotFound _ | atLine .. | inFile .. => true
  | _ => false

/-- A step that fails without naming a place, if at all. -/
def Placeless {α : Type} (x : Except Failure α) : Prop :=
  ∀ fault, x = .error fault → fault.namesPlace = false

namespace Placeless

variable {α β : Type}

theorem ok (a : α) : Placeless (.ok a : Except Failure α) := nofun

theorem error {fault : Failure} (h : fault.namesPlace = false) : Placeless (.error fault : Except Failure α) := by
  rintro _ ⟨⟩
  exact h

theorem bind {x : Except Failure α} {f : α → Except Failure β} (hx : Placeless x) (hf : ∀ a, Placeless (f a)) :
    Placeless (x >>= f) := fun fault h => by
  rcases bind_eq_error.1 h with h | ⟨a, -, h⟩
  · exact hx fault h
  · exact hf a fault h

theorem mapM {f : α → Except Failure β} (hf : ∀ a, Placeless (f a)) (l : List α) : Placeless (l.mapM f) :=
  fun fault h => by
    obtain ⟨a, -, ha⟩ := List.exists_of_findSome?_eq_some ((fault?_mapM f l).symm.trans (fault?_eq_some.2 h))
    exact hf a fault (fault?_eq_some.1 ha)

end Placeless

/-! ## Documents -/

namespace Registry

open Markup (Element)

theorem placeless_requiredAttribute (e : Element) (key : String) : Placeless (e.requiredAttribute key) := by
  unfold Element.requiredAttribute
  split
  · exact .ok _
  · exact .error rfl

theorem placeless_requiredChild (e : Element) (name : String) : Placeless (e.requiredChild name) := by
  unfold Element.requiredChild
  split
  · exact .ok _
  · exact .error rfl

theorem placeless_parseValue (name text : String) : Placeless (Constant.parseValue name text) := by
  unfold Constant.parseValue
  dsimp only
  split
  · exact .ok _
  · exact .error rfl

theorem placeless_readConstants (root : Element) : Placeless (readConstants root) := by
  refine .bind (.mapM (fun e => ?_) _) fun _ => .ok _
  refine .bind (placeless_requiredAttribute e _) fun name => ?_
  exact .bind (placeless_requiredAttribute e _) fun value => .bind (placeless_parseValue name value) fun _ => .ok _

theorem placeless_readUnique {α : Type} {read : Element → Except Failure α} (hread : ∀ e, Placeless (read e))
    {nameOf : α → String} {repeated : String → Failure} (hrepeated : ∀ name, (repeated name).namesPlace = false)
    (t : Table α) (es : List Element) : Placeless (readUnique read nameOf repeated t es) := by
  induction es generalizing t with
  | nil => exact .ok t
  | cons e es ih =>
    unfold readUnique
    split
    · rename_i fault hfault
      exact .error (hread e fault hfault)
    · split
      · exact .error (hrepeated _)
      · exact ih _

theorem placeless_readGroups (root : Element) : Placeless (readGroups root) := by
  refine placeless_readUnique (fun e => ?_) (fun _ => rfl) _ _
  refine .bind (placeless_requiredAttribute e _) fun name => ?_
  exact .bind (.mapM (fun child => placeless_requiredAttribute child _) _) fun _ => .ok _

theorem placeless_readTyped (e : Element) : Placeless (readTyped e) :=
  .bind (placeless_requiredChild e _) fun _ => .ok _

theorem placeless_readCommands (root : Element) : Placeless (readCommands root) := by
  refine placeless_readUnique (fun e => ?_) (fun _ => rfl) _ _
  refine .bind (placeless_requiredChild e _) fun proto => .bind (placeless_readTyped proto) fun _ => ?_
  exact .bind (.mapM (fun p => .bind (placeless_readTyped p) fun _ => .ok _) _) fun _ => .ok _

theorem placeless_readMentions (selection : Selection) (feature : Element) (block : String) :
    Placeless (readMentions selection feature block) := by
  refine .bind (.mapM (fun e => .bind (placeless_requiredAttribute e _) fun name => ?_) _) fun _ => .ok _
  split
  · exact .ok _
  · exact .ok _
  · exact .ok _
  · exact .error rfl

theorem placeless_parseVersion (text : String) : Placeless (Version.parse text) := by
  unfold Version.parse
  dsimp only
  split
  · exact .ok _
  · exact .error rfl

theorem placeless_readFeatures (selection : Selection) (root : Element) : Placeless (readFeatures selection root) := by
  refine .bind (.mapM (fun e => .bind (placeless_requiredAttribute e _) fun api => ?_) _) fun _ => .ok _
  split
  · exact .ok _
  · refine .bind (placeless_requiredAttribute e _) fun number => .bind (placeless_parseVersion number) fun _ => ?_
    exact .bind (placeless_readMentions selection e _) fun _ =>
      .bind (placeless_readMentions selection e _) fun _ => .ok _

theorem placeless_ofRoot (selection : Selection) (root : Element) : Placeless (ofRoot selection root) :=
  .bind (placeless_readConstants root) fun _ => .bind (placeless_readGroups root) fun _ =>
    .bind (placeless_readCommands root) fun _ => .bind (placeless_readFeatures selection root) fun _ => .ok _

end Registry

/-- What a text is reported with: a fault, and the line of it if one is named. -/
inductive Failure.OfText : Failure → Prop
  | fault {cause : Failure} (h : cause.namesPlace = false) : OfText cause
  | atLine {cause : Failure} (line : Nat) (h : cause.namesPlace = false) : OfText (.atLine line cause)

theorem Registry.ofText_of_ofDocument {selection : Selection} {document : String} {fault : Failure}
    (h : ofDocument selection document = .error fault) : fault.OfText := by
  rcases bind_eq_error.1 h with h | ⟨root, -, h⟩
  · rcases Markup.Element.ofDocument_cases document with ⟨e, he, -, -⟩ | ⟨o, line, message, -, herror, -⟩ |
      ⟨line, cause, herror, -, hcause⟩
    · cases he.symm.trans h
    · cases herror.symm.trans h
      exact .atLine line rfl
    · cases herror.symm.trans h
      exact .atLine line (by rcases hcause with rfl | rfl <;> rfl)
  · rcases bind_eq_error.1 h with h | ⟨r, -, h⟩
    · exact .fault (placeless_ofRoot selection root fault h)
    · cases h

/-! ## Tables -/

namespace TypeTable

theorem ofText_of_parseColumn {line : Nat} {column : List Char} {fault : Failure}
    (h : parseColumn line column = .error fault) : fault.OfText := by
  unfold parseColumn CType.parse at h
  dsimp only at h
  split at h
  · cases h
  · rename_i cause hcause
    cases h
    split at hcause <;> cases hcause
    exact .atLine line rfl

theorem ofText_of_addRow {rows : Table Row} {line : Nat} {found : List (List Char)} {fault : Failure}
    (h : addRow rows line found = .error fault) : fault.OfText := by
  unfold addRow at h
  split at h
  · rename_i left right
    rcases bind_eq_error.1 h with h | ⟨source, -, h⟩
    · exact ofText_of_parseColumn h
    · split at h
      · cases h
      · rcases bind_eq_error.1 h with h | ⟨target, -, h⟩
        · exact ofText_of_parseColumn h
        · split at h <;> cases h
          exact .fault rfl
  · cases h
    exact .fault rfl

theorem ofText_of_parse {text : String} {fault : Failure} (h : parse text = .error fault) : fault.OfText := by
  have hlines : ∀ (rows : Table Row) (line : Nat) (lines : List (List Char)),
      addLines rows line lines = .error fault → fault.OfText := by
    intro rows line lines
    induction lines generalizing rows line with
    | nil => exact nofun
    | cons row lines ih =>
      intro h
      unfold addLines at h
      dsimp only at h
      split at h
      · exact ih _ _ h
      · split at h
        · exact ih _ _ h
        · rename_i cause hcause
          cases h
          exact ofText_of_addRow hcause
  unfold parse at h
  split at h <;> cases h
  rename_i hrows
  exact hlines _ _ _ hrows

end TypeTable
end ApiProfile
