import ApiProfile.Proofs.CType
import ApiProfile.Proofs.Fallible
import ApiProfile.Proofs.Markup.RoundTrip
import ApiProfile.Proofs.Text.Cut
import ApiProfile.Proofs.Text.Word
import ApiProfile.Registry.Document
import ApiProfile.Signature
/-!
# How parameters are read

A parameter is written as a C declaration: its type, its name in an element of its own, and an array annotation
behind the name if there is one. The type is found by cutting the name out of the whole text at its last occurrence.
We show what that comes to (`readParameter_spelled`): wherever else the name occurs in the words of the type, it
stays there; but a name that occurs in the annotation is cut out of that, and then the declared name is read
as a word of the type (`readParameter_name_in_annotation`).
-/

namespace ApiProfile.Registry

open Markup (Element Node textOf)

/-- Letters, digits, underscores and the like, and at least one of them. -/
def IsIdentifier (name : List Char) : Prop :=
  name ≠ [] ∧ ∀ c ∈ name, Text.isWordChar c

/-- What stands behind a name: nothing but blanks, or a text in brackets, maybe with blanks around it. -/
inductive Suffix : (isArray : Bool) → List Char → Prop
  | blank {gap : List Char} (hgap : ∀ c ∈ gap, Text.isBlank c) : Suffix false gap
  | array {lead trail : List Char} (hlead : ∀ c ∈ lead, Text.isBlank c) (htrail : ∀ c ∈ trail, Text.isBlank c)
      (inner : List Char) : Suffix true (lead ++ '[' :: (inner ++ ']' :: trail))

/-! ## Where a name can be -/

theorem IsIdentifier.not_mem {name : List Char} (h : IsIdentifier name) {c : Char} (hc : Text.isWordChar c = false) :
    c ∉ name := fun hmem => by
  rw [h.2 c hmem] at hc
  cases hc

theorem IsIdentifier.not_infix_blanks {name gap : List Char} (h : IsIdentifier name)
    (hgap : ∀ c ∈ gap, Text.isBlank c) : ¬name <:+: gap := fun hinside => by
  obtain ⟨c, hc⟩ := List.exists_mem_of_ne_nil name h.1
  have hword := Text.isBlank_of_isWordChar (h.2 c hc)
  rw [hgap c (hinside.subset hc)] at hword
  cases hword

/-! ## The text of a type -/

theorem typeText_of_cut {name text : String} {before after : List Char}
    (h : Text.cutLast name.toList text.toList = some (before, after)) :
    (typeText name text).toList =
      if Text.trim after = [] then Text.trim before else Text.trim before ++ ' ' :: Text.trim after := by
  unfold typeText
  rw [h]
  dsimp only
  cases Text.trim after with
  | nil => exact String.toList_ofList
  | cons c suffix => exact String.toList_ofList

theorem Suffix.head_not_mem {isArray : Bool} {name back : List Char} (h : Suffix isArray back)
    (hname : IsIdentifier name) : ∀ c ∈ back.head?, c ∉ name := by
  have hblank : ∀ c, Text.isBlank c → c ∉ name := fun c hc =>
    hname.not_mem (Text.not_isWordChar_of_isBlank hc)
  intro c hc
  cases h with
  | blank hgap => exact hblank c (hgap c (List.mem_of_mem_head? hc))
  | @array lead trail hlead htrail inner =>
    cases lead with
    | nil =>
      cases hc
      exact hname.not_mem (Text.not_isWordChar_of_mem_marks (by decide))
    | cons d lead =>
      cases hc
      exact hblank c (hlead c (.head lead))

/-- Which part of a declaration the words of its type are read from: what stands before the name, and with it the
name if the annotation has it too. -/
def typeBody (front name back : List Char) : List Char :=
  if name <:+: back then front ++ name else front

section

variable {name text : String} {front lead inner trail : List Char}

/-- The name is cut out where it is declared if the annotation does not have it. -/
theorem parse_typeText_apart (hname : IsIdentifier name.toList) (hfront : '[' ∉ front)
    (hlead : ∀ c ∈ lead, Text.isBlank c) (htrail : ∀ c ∈ trail, Text.isBlank c)
    (hinside : ¬name.toList <:+: lead ++ '[' :: (inner ++ ']' :: trail))
    (htext : text.toList = front ++ (name.toList ++ (lead ++ '[' :: (inner ++ ']' :: trail)))) :
    CType.parse (typeText name text) =
      CType.ofWords (typeText name text) (CType.baseWords front) (front.count '*' + 1) := by
  have hcut : Text.cutLast name.toList text.toList = some (front, lead ++ '[' :: (inner ++ ']' :: trail)) := by
    rw [htext]
    exact Text.cutLast_of_not_infix hname.1 (Suffix.head_not_mem (.array hlead htrail inner) hname) hinside
  have hends : Text.trim (lead ++ '[' :: (inner ++ ']' :: trail)) = '[' :: (inner ++ [']']) := by
    rw [Text.trim_append_cons (by decide), Text.trimEnd_append_cons (by decide), Text.trimEnd_of_blank htrail,
      Text.trimStart_of_blank hlead, List.nil_append]
  have htype := typeText_of_cut hcut
  rw [hends, if_neg (List.cons_ne_nil _ _)] at htype
  refine CType.parse_of_array (Text.trim front ++ [' ']) inner [] ?_ ?_ nofun
    ((CType.alike_append_blanks (by decide) _).trans (CType.alike_trim front))
  · rw [htype, List.append_assoc]
    rfl
  · intro h
    rcases List.mem_append.1 h with h | h
    · exact hfront (Text.mem_of_mem_trim h)
    · exact absurd (List.mem_singleton.1 h) (by decide)

/-- The name is cut out of the annotation if that has it, and is left where it is declared. -/
theorem parse_typeText_inside (hname : IsIdentifier name.toList) (hfront : '[' ∉ front)
    (hlead : ∀ c ∈ lead, Text.isBlank c) (htrail : ∀ c ∈ trail, Text.isBlank c)
    (hinside : name.toList <:+: lead ++ '[' :: (inner ++ ']' :: trail))
    (htext : text.toList = front ++ (name.toList ++ (lead ++ '[' :: (inner ++ ']' :: trail)))) :
    CType.parse (typeText name text) =
      CType.ofWords (typeText name text) (CType.baseWords (front ++ name.toList)) (front.count '*' + 1) := by
  have hopen : '[' ∉ name.toList := hname.not_mem (Text.not_isWordChar_of_mem_marks (by decide))
  have hclose : ']' ∉ name.toList := hname.not_mem (Text.not_isWordChar_of_mem_marks (by decide))
  have hstar : '*' ∉ name.toList := hname.not_mem (Text.not_isWordChar_of_mem_marks (by decide))
  obtain ⟨⟨before, after⟩, hfound⟩ := Option.ne_none_iff_exists'.1 fun hnone => Text.cutLast_eq_none_iff.1 hnone hinside
  have hback := Text.eq_append_of_cutLast hfound
  rw [List.append_assoc] at hback
  -- the cut is behind the opening bracket and before the closing one
  obtain ⟨start, hbefore⟩ : ∃ start, before = lead ++ '[' :: start := by
    rcases Text.before_or_behind hopen hback with ⟨start, hbefore, -⟩ | ⟨start, -, hin⟩
    · exact ⟨start, hbefore⟩
    · exact absurd ⟨before, start, by rw [hin, List.append_assoc]⟩ (hname.not_infix_blanks hlead)
  obtain ⟨stop, hafter⟩ : ∃ stop, after = stop ++ ']' :: trail := by
    rw [← List.cons_append, ← List.append_assoc] at hback
    rcases Text.before_or_behind hclose hback with ⟨stop, -, hin⟩ | ⟨stop, hafter, -⟩
    · exact absurd ⟨stop, after, by rw [hin, List.append_assoc]⟩ (hname.not_infix_blanks htrail)
    · exact ⟨stop, hafter⟩
  have hcut : Text.cutLast name.toList text.toList = some (front ++ name.toList ++ before, after) := by
    rw [htext, ← List.append_assoc]
    exact Text.cutLast_append hfound _
  have htype := typeText_of_cut hcut
  have hends : Text.trim after = Text.trimStart stop ++ ']' :: [] := by
    rw [hafter, Text.trim_append_cons (by decide), Text.trimEnd_of_blank htrail]
  have hbegins : Text.trim (front ++ name.toList ++ before) =
      Text.trimStart (front ++ name.toList ++ lead) ++ '[' :: Text.trimEnd start := by
    rw [hbefore, ← List.append_assoc, Text.trim_append_cons (by decide)]
  rw [hends, hbegins, if_neg (by simp)] at htype
  have hcount : (front ++ name.toList).count '*' = front.count '*' := by
    rw [List.count_append, List.count_eq_zero.2 hstar, Nat.add_zero]
  rw [← hcount]
  refine CType.parse_of_array (Text.trimStart (front ++ name.toList ++ lead))
    (Text.trimEnd start ++ ' ' :: Text.trimStart stop) [] ?_ ?_ nofun
    ((CType.alike_trimStart _).trans (CType.alike_append_blanks hlead _))
  · rw [htype]
    simp
  · intro h
    have hmem := (List.dropWhile_sublist _).subset h
    rcases List.mem_append.1 hmem with hmem | hmem
    · exact (List.mem_append.1 hmem).elim hfront hopen
    · exact absurd (hlead '[' hmem) (by decide)

end

theorem parse_typeText {name text : String} {front back : List Char} {isArray : Bool}
    (hname : IsIdentifier name.toList) (hfront : '[' ∉ front) (hback : Suffix isArray back)
    (htext : text.toList = front ++ (name.toList ++ back)) :
    CType.parse (typeText name text) =
      CType.ofWords (typeText name text) (CType.baseWords (typeBody front name.toList back))
        (front.count '*' + if isArray then 1 else 0) := by
  unfold typeBody
  cases hback with
  | blank hgap =>
    have hinside := hname.not_infix_blanks hgap
    have hcut : Text.cutLast name.toList text.toList = some (front, back) := by
      rw [htext]
      exact Text.cutLast_of_not_infix hname.1 (Suffix.head_not_mem (.blank hgap) hname) hinside
    have htype := typeText_of_cut hcut
    rw [if_pos (Text.trim_eq_nil_iff.2 hgap)] at htype
    rw [if_neg hinside]
    exact CType.parse_of_no_bracket (htype ▸ CType.alike_trim front)
      (htype ▸ fun h => hfront (Text.mem_of_mem_trim h))
  | array hlead htrail inner =>
    split
    · rename_i hinside
      exact parse_typeText_inside hname hfront hlead htrail hinside htext
    · rename_i hinside
      exact parse_typeText_apart hname hfront hlead htrail hinside htext

/-! ## Parameters -/

theorem child?_of_first {element : String} {attributes : List (String × String)} {lead trail : List Node}
    {child : Element} (hlead : ∀ e : Element, e.toNode ∈ lead → e.name ≠ child.name) :
    Element.child? ⟨element, attributes, lead ++ child.toNode :: trail⟩ child.name = some child := by
  unfold Element.child? Element.elements
  rw [List.filterMap_append, List.filterMap_cons, Markup.Node.element?_toNode, List.find?_append]
  have hnone : (lead.filterMap Node.element?).find? (fun e => e.name = child.name) = none := by
    rw [List.find?_eq_none]
    intro e he
    obtain ⟨node, hnode, heq⟩ := List.mem_filterMap.1 he
    cases node with
    | text content => cases heq
    | element name attributes children =>
      cases heq
      exact fun h => hlead ⟨name, attributes, children⟩ hnode (of_decide_eq_true h)
  rw [hnone]
  simp

theorem text_of_pieces (element : String) (attributes : List (String × String)) (lead trail : List Node)
    (child : Element) :
    (Element.text ⟨element, attributes, lead ++ child.toNode :: trail⟩).toList =
      (textOf lead).toList ++ (child.text.toList ++ (textOf trail).toList) := by
  have hall : Element.text ⟨element, attributes, lead ++ child.toNode :: trail⟩ =
      textOf lead ++ (child.text ++ textOf trail) := by
    rw [show Element.text ⟨element, attributes, lead ++ child.toNode :: trail⟩ =
      textOf (lead ++ ([child.toNode] ++ trail)) from rfl, Markup.textOf_append, Markup.textOf_append]
    congr 2
    exact Markup.textOf_toNode child
  rw [hall, String.toList_append, String.toList_append]

/-- A parameter is declared under the name in its `name` element. Its type is read from the words before the name
under one indirection for each star, and one more for an annotation; but if the name occurs in the
annotation, it is one of the words, or the end of one. -/
theorem readParameter_spelled {element : String} {attributes : List (String × String)} {lead trail : List Node}
    {child : Element} {isArray : Bool} (hfirst : ∀ e : Element, e.toNode ∈ lead → e.name ≠ "name")
    (hchild : child.name = "name") (hname : IsIdentifier child.text.toList)
    (hfront : '[' ∉ (textOf lead).toList) (hback : Suffix isArray (textOf trail).toList) :
    ∃ declared words, words = CType.baseWords (typeBody (textOf lead).toList child.text.toList (textOf trail).toList) ∧
      readParameter ⟨element, attributes, lead ++ child.toNode :: trail⟩ = .ok declared ∧
      declared.name = child.text ∧
      (words = [] → declared.read = .error (.emptyType declared.type.text)) ∧
      (words ≠ [] → ∃ parameter, declared.read = .ok parameter ∧ parameter.name = child.text ∧
        parameter.type.group = attributes.lookup "group" ∧
        parameter.type.type = ⟨String.ofList ([' '].intercalate words),
          UInt32.ofNat ((textOf lead).toList.count '*' + if isArray then 1 else 0)⟩) := by
  have hfound : Element.child? ⟨element, attributes, lead ++ child.toNode :: trail⟩ "name" = some child :=
    hchild ▸ child?_of_first (hchild ▸ hfirst)
  have hparse := parse_typeText hname hfront hback (text_of_pieces element attributes lead trail child)
  have hread : readParameter ⟨element, attributes, lead ++ child.toNode :: trail⟩ =
      .ok ⟨child.text, typeText child.text (Element.text ⟨element, attributes, lead ++ child.toNode :: trail⟩),
        attributes.lookup "group"⟩ := by
    unfold readParameter readTyped Element.requiredChild
    rw [hfound]
    rfl
  refine ⟨_, _, rfl, hread, rfl, fun hwords => ?_, fun hwords => ?_⟩
  · unfold DeclaredParameter.read DeclaredType.read
    rw [hparse, CType.ofWords, if_pos hwords]
    rfl
  · unfold DeclaredParameter.read DeclaredType.read
    rw [hparse, CType.ofWords, if_neg hwords]
    exact ⟨_, rfl, rfl, rfl, rfl⟩

/-- What stands before the name in `const GLv *v[2]`, where the name is in a word of the type as well. -/
def vectorType : List Node :=
  [.text "const ", .element "ptype" [] [.text "GLv"], .text " *"]

theorem readParameter_spelled_vector :
    ∃ declared parameter,
      readParameter ⟨"param", [("group", "V")], vectorType ++ Element.toNode ⟨"name", [], [.text "v"]⟩ :: [.text "[2]"]⟩ =
        .ok declared ∧
      declared.read = .ok parameter ∧ parameter.name = "v" ∧ parameter.type = ⟨⟨"GLv", 2⟩, some "V"⟩ := by
  have hfirst : ∀ e : Element, e.toNode ∈ vectorType → e.name ≠ "name" := by
    intro e he
    simp only [vectorType, Element.toNode, List.mem_cons, reduceCtorEq, Node.element.injEq, List.not_mem_nil, or_false,
      false_or] at he
    rw [he.1]
    decide
  have hback : Suffix true (textOf [.text "[2]"]).toList := @Suffix.array [] [] nofun nofun ['2']
  obtain ⟨declared, words, hwords, hread, -, -, hparameter⟩ :=
    @readParameter_spelled "param" [("group", "V")] vectorType [.text "[2]"] ⟨"name", [], [.text "v"]⟩ true hfirst rfl
      ⟨by decide, by decide +kernel⟩ (by decide) hback
  have hfound : words = ["GLv".toList] := by
    rw [hwords]
    unfold typeBody
    rw [if_neg (by decide)]
    decide +kernel
  rw [hfound] at hparameter
  obtain ⟨parameter, hp, hname, hgroup, htype⟩ := hparameter (List.cons_ne_nil _ _)
  refine ⟨declared, parameter, hread, hp, hname, ?_⟩
  cases htyped : parameter.type with
  | mk type group =>
    rw [htyped] at hgroup htype
    dsimp only at hgroup htype
    rw [hgroup, htype]
    decide +kernel

/-- The parameter `GLfloat v[v]`: its annotation names the parameter. -/
def selfSized : Element :=
  ⟨"param", [], [.element "ptype" [] [.text "GLfloat"], .text " ", .element "name" [] [.text "v"], .text "[v]"]⟩

/-- The name is read as a word of the type, although the words before it are `GLfloat` alone. -/
theorem readParameter_name_in_annotation :
    CType.baseWords "GLfloat ".toList = ["GLfloat".toList] ∧
      (readParameter selfSized >>= DeclaredParameter.read) = .ok ⟨"v", ⟨⟨"GLfloat v", 1⟩, none⟩, .input⟩ := by
  decide +kernel

end ApiProfile.Registry
