import ApiProfile.Proofs.Markup.Building
import ApiProfile.Proofs.Registry.Declaring
/-!
# Which declaration of a constant counts

A constant may be declared more than once, for all APIs or for single ones. All its declarations are read, whatever is
selected, so each of them must have a name and a proper value. The value that counts is that of the first declaration
for all APIs, and if there is none, that of the first one.
-/

namespace ApiProfile.Registry

open Markup (Element)

/-- The declaration of a name that counts: the first one for all APIs, or else the first one. -/
def countingDeclaration? (root : Element) (name : String) : Option Element :=
  ((declarationsOf root name).find? fun e => (e.attribute? "api").isNone).or (declarationsOf root name).head?

/-! ## What is recorded -/

/-- A default stays once it is recorded, and what is no default waits for the next one. -/
theorem foldl_preferred_some (ds : List Declaration) (kept : Declaration) :
    ds.foldl (fun kept? d => some (preferred kept? d)) (some kept) =
      some (if kept.isDefault then kept else (ds.find? (·.isDefault)).getD kept) := by
  induction ds generalizing kept with
  | nil => simp
  | cons d ds ih =>
    rw [List.foldl_cons, ih, List.find?_cons]
    unfold preferred
    cases hkept : kept.isDefault <;> cases hd : d.isDefault <;> simp [hkept, hd]

theorem foldl_preferred (ds : List Declaration) :
    ds.foldl (fun kept? d => some (preferred kept? d)) none = (ds.find? (·.isDefault)).or ds.head? := by
  cases ds with
  | nil => rfl
  | cons d ds =>
    rw [List.foldl_cons, foldl_preferred_some, List.find?_cons]
    unfold preferred
    cases hd : d.isDefault with
    | true => simp
    | false => cases ds.find? (·.isDefault) <;> simp

/-! ## What is read of a document -/

/-- Lists whose entries go together have the first ones of a kind in the same places. -/
theorem rel_find?_or_head? {α β : Type} {R : α → β → Prop} {p : α → Bool} {q : β → Bool}
    (hpq : ∀ a b, R a b → p a = q b) {as : List α} {bs : List β} (h : List.Forall₂ R as bs) :
    Option.Rel R ((as.find? p).or as.head?) ((bs.find? q).or bs.head?) := by
  have hfind : Option.Rel R (as.find? p) (bs.find? q) := by
    induction h with
    | nil => exact .none
    | @cons a b as bs hab _ ih =>
      rw [List.find?_cons, List.find?_cons, hpq a b hab]
      cases q b with
      | true => exact .some hab
      | false => exact ih
  have hhead : Option.Rel R as.head? bs.head? := by
    cases h with
    | nil => exact .none
    | cons hab _ => exact .some hab
  generalize as.find? p = found, bs.find? q = found' at hfind
  cases hfind with
  | none => exact hhead
  | some hab => exact .some hab

/-- What is read for a name is what its counting declaration declares. -/
theorem rel_countingDeclaration? {root : Element} {constants : Table Constant} (h : readConstants root = .ok constants)
    (name : String) :
    Option.Rel DeclaresConstant (countingDeclaration? root name) (constants.get? name) := by
  obtain ⟨ds, hds, h⟩ := bind_eq_ok.1 h
  cases h
  have hread := read_declarationsOf hds name
  rw [← List.forall₂_eq_eq_eq, List.forall₂_map_left_iff, List.forall₂_map_right_iff] at hread
  have hcounts := rel_find?_or_head? (q := Declaration.isDefault) (p := fun e => (e.attribute? "api").isNone)
    (fun e d hd => (readDeclaration_eq_ok.1 hd).2.symm) hread
  rw [Table.get?_map, get?_foldl_record, Table.get?_empty, foldl_preferred]
  unfold countingDeclaration?
  generalize ((declarationsOf root name).find? _).or _ = counting? at hcounts ⊢
  generalize ((ds.filter _).find? _).or _ = recorded? at hcounts ⊢
  cases hcounts with
  | none => exact .none
  | some hd => exact .some (readDeclaration_eq_ok.1 hd).1

theorem mem_declarationsOf {root e : Element} {name : String} :
    e ∈ declarationsOf root name ↔ e ∈ declarationsIn root ∧ e.attribute? "name" = some name := by
  simp [declarationsOf]

theorem mem_of_countingDeclaration? {root e : Element} {name : String} (h : countingDeclaration? root name = some e) :
    e ∈ declarationsOf root name := by
  rcases Option.or_eq_some_iff.1 h with h | ⟨-, h⟩
  · exact List.mem_of_find?_eq_some h
  · exact List.mem_of_head? h

theorem countingDeclaration?_eq_none {root : Element} {name : String} :
    countingDeclaration? root name = none ↔ ∀ e ∈ declarationsIn root, e.attribute? "name" ≠ some name := by
  unfold countingDeclaration?
  rw [Option.or_eq_none_iff, List.head?_eq_none_iff, List.find?_eq_none]
  constructor
  · rintro ⟨-, hnone⟩ e he hname
    have hmem := mem_declarationsOf.2 ⟨he, hname⟩
    rw [hnone] at hmem
    cases hmem
  · intro h
    have hnone : declarationsOf root name = [] :=
      List.eq_nil_iff_forall_not_mem.2 fun e he => h e (mem_declarationsOf.1 he).1 (mem_declarationsOf.1 he).2
    simp [hnone]

theorem declares_of_get? {root : Element} {constants : Table Constant} (h : readConstants root = .ok constants)
    {name : String} {c : Constant} (hc : constants.get? name = some c) :
    ∃ e, countingDeclaration? root name = some e ∧ DeclaresConstant e c := by
  have hcounts := rel_countingDeclaration? h name
  rw [hc] at hcounts
  generalize countingDeclaration? root name = counting? at hcounts ⊢
  cases hcounts with
  | some hdeclares => exact ⟨_, rfl, hdeclares⟩

theorem mem_keys_readConstants {root : Element} {constants : Table Constant} (h : readConstants root = .ok constants)
    {name : String} :
    name ∈ constants.keys ↔ ∃ e ∈ declarationsIn root, e.attribute? "name" = some name := by
  rw [Table.mem_keys_iff]
  constructor
  · rintro ⟨c, hc⟩
    obtain ⟨e, hcounting, -⟩ := declares_of_get? h hc
    exact ⟨e, mem_declarationsOf.1 (mem_of_countingDeclaration? hcounting)⟩
  · rintro ⟨e, he, hname⟩
    have hcounts := rel_countingDeclaration? h name
    cases hc : constants.get? name with
    | some c => exact ⟨c, rfl⟩
    | none =>
      rw [hc] at hcounts
      generalize hcounting : countingDeclaration? root name = counting? at hcounts
      cases hcounts
      exact absurd hname (countingDeclaration?_eq_none.1 hcounting e he)

/-- Constants are read only if each of their declarations declares one. -/
theorem declares_of_readConstants {root : Element} {constants : Table Constant} (h : readConstants root = .ok constants)
    {e : Element} (he : e ∈ declarationsIn root) : ∃ c, DeclaresConstant e c := by
  obtain ⟨ds, hds, -⟩ := bind_eq_ok.1 h
  obtain ⟨d, -, hd⟩ := exists_mem_of_forall₂ (mapM_eq_ok.1 hds) he
  exact ⟨d.constant, (readDeclaration_eq_ok.1 hd).1⟩

/-! ## The constants of a document -/

/-- The constants of a registry are read whatever is selected. -/
theorem readConstants_of_ofDocument {s : Selection} {document : String} {r : Registry}
    (h : ofDocument s document = .ok r) :
    ∃ root, Element.ofDocument document = .ok root ∧ readConstants root = .ok r.constants := by
  obtain ⟨root, hroot, -⟩ := bind_eq_ok.1 h
  obtain ⟨found, hfound, rfl⟩ := (ofDocument_eq_ok hroot).1 h
  exact ⟨root, hroot, (ofRoot_eq_ok.1 hfound).1⟩

/-- Whatever is selected, the constants of a document that is read are those with a declaration, each as its counting
declaration has it; and no document is read in which some declaration does not declare a constant. -/
theorem ofDocument_countingDeclaration (s : Selection) (document : String) :
    (∀ r, ofDocument s document = .ok r → ∃ root, Element.ofDocument document = .ok root ∧ ∀ name,
      (name ∈ r.constants.keys ↔ ∃ e ∈ declarationsIn root, e.attribute? "name" = some name) ∧
      ∀ c, r.constants.get? name = some c →
        c.name = name ∧ ∃ e, countingDeclaration? root name = some e ∧ DeclaresConstant e c) ∧
    ∀ root, Element.ofDocument document = .ok root →
      (∃ e ∈ declarationsIn root, ∀ c, ¬DeclaresConstant e c) → ∃ fault, ofDocument s document = .error fault := by
  constructor
  · intro r h
    obtain ⟨root, hroot, hconstants⟩ := readConstants_of_ofDocument h
    refine ⟨root, hroot, fun name => ⟨mem_keys_readConstants hconstants, fun c hc => ?_⟩⟩
    obtain ⟨e, hcounting, hdeclares⟩ := declares_of_get? hconstants hc
    have hname := (mem_declarationsOf.1 (mem_of_countingDeclaration? hcounting)).2
    exact ⟨Option.some.inj (hdeclares.name.symm.trans hname), e, hcounting, hdeclares⟩
  · rintro root hroot ⟨e, he, hnone⟩
    cases h : ofDocument s document with
    | error fault => exact ⟨fault, rfl⟩
    | ok r =>
      obtain ⟨top, htop, hconstants⟩ := readConstants_of_ofDocument h
      rw [hroot] at htop
      cases htop
      obtain ⟨c, hc⟩ := declares_of_readConstants hconstants he
      exact absurd hc (hnone c)

/-- Declarations of a name for an API, then for all, and declarations of another name for single APIs only. -/
def specificRoot : Element :=
  ⟨"registry", [], [
    .element "enums" [] [
      .element "enum" [("name", "A"), ("value", "1"), ("api", "gl")] [],
      .element "enum" [("name", "B"), ("value", "2"), ("api", "gles2")] []],
    .element "enums" [] [
      .element "enum" [("name", "A"), ("value", "3")] [],
      .element "enum" [("name", "B"), ("value", "4"), ("api", "gl")] [],
      .element "enum" [("name", "A"), ("value", "5")] []]]⟩

def specificDocument : String :=
  "<registry>" ++
  "<enums><enum name='A' value='1' api='gl'/><enum name='B' value='2' api='gles2'/></enums>" ++
  "<enums><enum name='A' value='3'/><enum name='B' value='4' api='gl'/><enum name='A' value='5'/></enums>" ++
  "</registry>"

/-- A declaration without a proper value, behind the one that counts. -/
def valuelessRoot : Element :=
  ⟨"registry", [], [.element "enums" [] [
    .element "enum" [("name", "A"), ("value", "1")] [],
    .element "enum" [("name", "A"), ("value", "none"), ("api", "gles2")] []]]⟩

def valuelessDocument : String :=
  "<registry><enums><enum name='A' value='1'/><enum name='A' value='none' api='gles2'/></enums></registry>"

set_option maxRecDepth 20000 in
/-- Of a default between others the default counts, and of declarations for single APIs the first, even for another
API than the selected one. A value that cannot be read is refused where it would not count. -/
theorem ofDocument_countingDeclaration_specific :
    (∃ r, ofDocument ⟨"gl", none⟩ specificDocument = .ok r ∧ r.constants.get? "A" = some ⟨"A", 3⟩ ∧
      r.constants.get? "B" = some ⟨"B", 2⟩) ∧
    ∃ fault, ofDocument ⟨"gl", none⟩ valuelessDocument = .error fault := by
  have hroot : Element.ofDocument specificDocument = .ok specificRoot := by
    rw [Element.ofDocument_of_toList (show specificDocument.toList = _ from Markup.toList_fourLines ..)]
    decide +kernel
  have hvalueless : Element.ofDocument valuelessDocument = .ok valuelessRoot := by
    rw [Element.ofDocument_of_toList (show valuelessDocument.toList = _ from String.toList_ofList)]
    decide +kernel
  constructor
  · have hread : (ofRoot ⟨"gl", none⟩ specificRoot).isOk := by decide +kernel
    cases hfound : ofRoot ⟨"gl", none⟩ specificRoot with
    | error fault =>
      rw [hfound] at hread
      cases hread
    | ok found =>
      have hr := (ofDocument_eq_ok hroot).2 ⟨found, hfound, rfl⟩
      obtain ⟨root, htop, hnames⟩ := (ofDocument_countingDeclaration ⟨"gl", none⟩ specificDocument).1 _ hr
      rw [hroot] at htop
      cases htop
      have hcounts : ∀ {name value} text {e}, countingDeclaration? specificRoot name = some e →
          e.attribute? "value" = some text → Constant.parseValue name text = .ok value →
            found.constants.get? name = some ⟨name, value⟩ := by
        intro name value text e hcounting htext hvalue
        obtain ⟨hkeys, hdeclared⟩ := hnames name
        obtain ⟨⟨_, v⟩, hc⟩ := (Table.mem_keys_iff ..).1
          (hkeys.2 ⟨e, mem_declarationsOf.1 (mem_of_countingDeclaration? hcounting)⟩)
        obtain ⟨rfl, e', he', ⟨-, text', htext', hv⟩⟩ := hdeclared _ hc
        rw [hcounting] at he'
        cases he'
        rw [htext] at htext'
        cases htext'
        rw [hvalue] at hv
        cases hv
        exact hc
      have hdefault : countingDeclaration? specificRoot "A" = some ⟨"enum", [("name", "A"), ("value", "3")], []⟩ := by
        decide +kernel
      have hfirst : countingDeclaration? specificRoot "B" =
          some ⟨"enum", [("name", "B"), ("value", "2"), ("api", "gles2")], []⟩ := by
        decide +kernel
      exact ⟨_, hr, hcounts "3" hdefault rfl (by decide +kernel), hcounts "2" hfirst rfl (by decide +kernel)⟩
  · refine (ofDocument_countingDeclaration _ _).2 _ hvalueless ⟨_, List.mem_of_getElem? (i := 1) rfl, ?_⟩
    rintro ⟨name, value⟩ ⟨hname, text, htext, hvalue⟩
    cases hname
    cases htext
    have hrefused : (Constant.parseValue "A" "none").isOk = false := by decide +kernel
    exact ne_ok_of_isOk hrefused value hvalue

end ApiProfile.Registry
