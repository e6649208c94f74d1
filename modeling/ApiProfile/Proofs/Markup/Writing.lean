import ApiProfile.Markup.Element
import Mathlib.Data.List.Infix
/-!
# Ways to write an element

An element can be written down in many ways. `WritesDocument e text` says that `text` is one of them: tags
may be empty or come in pairs, values stand in quotes of either kind, characters may be written as references,
a text may be cut into runs and character data sections, and comments, instructions and document types may
come anywhere between nodes and around the element at the top. Blanks may stand before and after the `=` of an
attribute and at the end of a tag.

`Element.SameContent` is what all ways of writing an element have in common.
-/

namespace ApiProfile.Markup

/-! ## Names, gaps and references -/

/-- Blanks only, maybe none. -/
def IsGap (gap : List Char) : Prop :=
  ∀ c ∈ gap, c ∈ [' ', '\t', '\r', '\n']

/-- What is said of the characters in a text is looked up there, not for every character that there is. -/
instance decidableForallMem (p : Char → Prop) [DecidablePred p] (text : List Char) : Decidable (∀ c ∈ text, p c) :=
  List.decidableBAll p text

instance (gap : List Char) : Decidable (IsGap gap) :=
  decidableForallMem _ gap

/-- A name of an element or of an attribute. -/
structure IsName (name : List Char) : Prop where
  ne_nil : name ≠ []
  apart : ∀ c ∈ name, c ∉ [' ', '\t', '\r', '\n', '<', '>', '/', '=', '&', '\'', '"']
  head : name.head? ≠ some '!' ∧ name.head? ≠ some '?'

/-- One or more digits of a base, in either case, denote a number. -/
inductive Denotes (base : Nat) : List Char → Nat → Prop
  | digit {c : Char} {d : Nat} (hd : d < base) (hc : c = d.digitChar ∨ c = d.digitChar.toUpper) : Denotes base [c] d
  | more {digits : List Char} {n d : Nat} {c : Char} (h : Denotes base digits n) (hd : d < base)
    (hc : c = d.digitChar ∨ c = d.digitChar.toUpper) : Denotes base (digits ++ [c]) (base * n + d)

theorem Denotes.digits {base n : Nat} {digits : List Char} (hbase : base ≤ 16) (h : Denotes base digits n) :
    ∀ c ∈ digits, ∃ d < 16, c = Nat.digitChar d ∨ c = (Nat.digitChar d).toUpper := by
  induction h with
  | digit hd hc =>
    intro c hmem
    rw [List.mem_singleton.1 hmem]
    exact ⟨_, Nat.lt_of_lt_of_le hd hbase, hc⟩
  | more _ hd hc ih =>
    intro c hmem
    rcases List.mem_append.1 hmem with hmem | hmem
    · exact ih c hmem
    · rw [List.mem_singleton.1 hmem]
      exact ⟨_, Nat.lt_of_lt_of_le hd hbase, hc⟩

/-- What may stand between `&` and `;` to refer to a character. -/
inductive Refers : Char → List Char → Prop
  | lt : Refers '<' "lt".toList
  | gt : Refers '>' "gt".toList
  | amp : Refers '&' "amp".toList
  | apos : Refers '\'' "apos".toList
  | quot : Refers '"' "quot".toList
  | decimal {c : Char} {digits : List Char} (hc : c ≠ '\x00') (h : Denotes 10 digits c.toNat) :
    Refers c ('#' :: digits)
  | hexadecimal {c : Char} {digits : List Char} (hc : c ≠ '\x00') (h : Denotes 16 digits c.toNat) :
    Refers c ('#' :: 'x' :: digits)

/-- A text is written character by character, as it is or by reference. -/
inductive Escapes (plain : Char → Prop) : (content raw : List Char) → Prop
  | nil : Escapes plain [] []
  | literal {c : Char} {content raw : List Char} (hplain : plain c) (hc : c ≠ '&') (h : Escapes plain content raw) :
    Escapes plain (c :: content) (c :: raw)
  | reference {c : Char} {name content raw : List Char} (hname : Refers c name) (h : Escapes plain content raw) :
    Escapes plain (c :: content) ('&' :: name ++ ';' :: raw)

/-! ## Asides -/

/-- Inside of a document type every bracket has its match. -/
inductive Bracketed : List Char → Prop
  | nil : Bracketed []
  | plain {c : Char} {rest : List Char} (hopen : c ≠ '<') (hclose : c ≠ '>') (h : Bracketed rest) :
    Bracketed (c :: rest)
  | nested {inner rest : List Char} (hinner : Bracketed inner) (h : Bracketed rest) :
    Bracketed ('<' :: inner ++ '>' :: rest)

/-- A comment, an instruction or declaration, or a document type. -/
inductive IsAside : List Char → Prop
  | comment {body : List Char} (h : ¬ "-->".toList <:+: body) :
    IsAside ("<!--".toList ++ body ++ "-->".toList)
  | instruction {body : List Char} (h : ¬ "?>".toList <:+: '?' :: body) :
    IsAside ("<?".toList ++ body ++ "?>".toList)
  | doctype {body : List Char} (h : Bracketed body) (hbody : ¬ IsGap body) :
    IsAside ("<!DOCTYPE".toList ++ body ++ ['>'])

/-! ## Tags -/

inductive WritesAttributes : List (String × String) → List Char → Prop
  | nil : WritesAttributes [] []
  | cons {key value : String} {more : List (String × String)} {gap before after raw rest : List Char} {quote : Char}
    (hne : gap ≠ []) (hgap : IsGap gap) (hbefore : IsGap before) (hafter : IsGap after) (hkey : IsName key.toList)
    (hquote : quote = '\'' ∨ quote = '"') (hvalue : Escapes (· ≠ quote) value.toList raw)
    (h : WritesAttributes more rest) :
    WritesAttributes ((key, value) :: more)
      (gap ++ key.toList ++ before ++ '=' :: after ++ quote :: raw ++ quote :: rest)

/-- What stands in an opening tag. -/
inductive WritesTag (name : String) (attributes : List (String × String)) : List Char → Prop
  | intro {raw gap : List Char} (hname : IsName name.toList) (hkeys : (attributes.map Prod.fst).Nodup)
    (hraw : WritesAttributes attributes raw) (hgap : IsGap gap) :
    WritesTag name attributes (name.toList ++ raw ++ gap)

/-- A tag is put around what is written for the children. If there is nothing, it may be an empty one. -/
inductive Encloses (name : String) (tag : List Char) : (children : List Node) → (body written : List Char) → Prop
  | pair {children : List Node} {body gap : List Char} (hgap : IsGap gap) :
    Encloses name tag children body ('<' :: tag ++ '>' :: body ++ "</".toList ++ name.toList ++ gap ++ ['>'])
  | empty : Encloses name tag [] [] ('<' :: tag ++ "/>".toList)

/-! ## Nodes and documents -/

inductive WritesNodes : List Node → List Char → Prop
  | nil : WritesNodes [] []
  | aside {nodes : List Node} {piece raw : List Char} (hpiece : IsAside piece) (h : WritesNodes nodes raw) :
    WritesNodes nodes (piece ++ raw)
  -- a text is written piece by piece, and ends where none of it is left
  | run {content piece raw : List Char} {more : String} {nodes : List Node}
    (hpiece : Escapes (· ≠ '<') content piece) (h : WritesNodes (.text more :: nodes) raw) :
    WritesNodes (.text (String.ofList content ++ more) :: nodes) (piece ++ raw)
  | cdata {content raw : List Char} {more : String} {nodes : List Node}
    (hcontent : ¬ "]]>".toList <:+: content) (h : WritesNodes (.text more :: nodes) raw) :
    WritesNodes (.text (String.ofList content ++ more) :: nodes)
      ("<![CDATA[".toList ++ content ++ "]]>".toList ++ raw)
  | textEnd {raw : List Char} {nodes : List Node} (h : WritesNodes nodes raw) :
    WritesNodes (.text "" :: nodes) raw
  | element {name : String} {attributes : List (String × String)} {children nodes : List Node}
    {tag body written raw : List Char} (htag : WritesTag name attributes tag) (hchildren : WritesNodes children body)
    (hwritten : Encloses name tag children body written) (h : WritesNodes nodes raw) :
    WritesNodes (.element name attributes children :: nodes) (written ++ raw)

/-- What may come before and after the element at the top. -/
inductive Surrounds : List Char → Prop
  | nil : Surrounds []
  | gap {gap rest : List Char} (hgap : IsGap gap) (h : Surrounds rest) : Surrounds (gap ++ rest)
  | aside {piece rest : List Char} (hpiece : IsAside piece) (h : Surrounds rest) : Surrounds (piece ++ rest)

inductive WritesDocument (e : Element) : List Char → Prop
  | intro {before tag body written after : List Char} (hbefore : Surrounds before)
    (htag : WritesTag e.name e.attributes tag) (hbody : WritesNodes e.children body)
    (hwritten : Encloses e.name tag e.children body written) (hafter : Surrounds after) :
    WritesDocument e (before ++ written ++ after)

/-! ## What can be written -/

/-- Names are names all the way down, and no element has two attributes with the same key. -/
inductive Element.WellNamed : Element → Prop
  | intro {e : Element} (name : IsName e.name.toList) (keys : ∀ a ∈ e.attributes, IsName a.1.toList)
    (distinct : (e.attributes.map Prod.fst).Nodup) (elements : ∀ child ∈ e.elements, Element.WellNamed child) :
    Element.WellNamed e

/-- A text in which nothing needs a reference may be written as it is. -/
theorem escapes_self {plain : Char → Prop} {content : List Char} (h : ∀ c ∈ content, plain c ∧ c ≠ '&') :
    Escapes plain content content := by
  induction content with
  | nil => exact .nil
  | cons c content ih =>
    obtain ⟨hc, hrest⟩ := List.forall_mem_cons.1 h
    exact .literal hc.1 hc.2 (ih hrest)

theorem exists_escapes {stop : Char} {name : List Char} (hstop : Refers stop name) (content : List Char) :
    ∃ raw, Escapes (· ≠ stop) content raw := by
  induction content with
  | nil => exact ⟨[], .nil⟩
  | cons c content ih =>
    obtain ⟨raw, hraw⟩ := ih
    -- only what starts a reference and what ends the text have to be referred to
    by_cases hamp : c = '&'
    · rw [hamp]
      exact ⟨_, .reference .amp hraw⟩
    · by_cases hc : c = stop
      · rw [hc]
        exact ⟨_, .reference hstop hraw⟩
      · exact ⟨_, .literal hc hamp hraw⟩

theorem exists_writesAttributes {attributes : List (String × String)} (h : ∀ a ∈ attributes, IsName a.1.toList) :
    ∃ raw, WritesAttributes attributes raw := by
  induction attributes with
  | nil => exact ⟨[], .nil⟩
  | cons a attributes ih =>
    obtain ⟨rest, hrest⟩ := ih fun b hb => h b (.tail a hb)
    obtain ⟨raw, hraw⟩ := exists_escapes .quot a.2.toList
    have hgap : IsGap [' '] := by
      intro c hc
      rw [List.mem_singleton.1 hc]
      exact .head _
    exact ⟨_, .cons (List.cons_ne_nil ' ' []) hgap (List.forall_mem_nil _) (List.forall_mem_nil _)
      (h a (.head _)) (.inr rfl) hraw hrest⟩

theorem exists_writesNodes {nodes : List Node}
    (h : ∀ child ∈ nodes.filterMap Node.element?, ∃ tag body written, WritesTag child.name child.attributes tag ∧
      WritesNodes child.children body ∧ Encloses child.name tag child.children body written) :
    ∃ raw, WritesNodes nodes raw := by
  induction nodes with
  | nil => exact ⟨[], .nil⟩
  | cons node nodes ih =>
    cases node with
    | text content =>
      obtain ⟨rest, hrest⟩ := ih h
      obtain ⟨piece, hpiece⟩ := exists_escapes .lt content.toList
      have hrun := WritesNodes.run hpiece (.textEnd hrest)
      rw [String.ofList_toList, String.append_empty] at hrun
      exact ⟨_, hrun⟩
    | element name attributes children =>
      obtain ⟨rest, hrest⟩ := ih fun child hchild => h child (.tail _ hchild)
      obtain ⟨tag, body, written, htag, hbody, hwritten⟩ := h ⟨name, attributes, children⟩ (.head _)
      exact ⟨_, .element htag hbody hwritten hrest⟩

theorem Element.WellNamed.writes {e : Element} (h : e.WellNamed) :
    ∃ tag body written, WritesTag e.name e.attributes tag ∧ WritesNodes e.children body ∧
      Encloses e.name tag e.children body written := by
  induction h with
  | intro name keys distinct _ ih =>
    obtain ⟨raw, hraw⟩ := exists_writesAttributes keys
    obtain ⟨body, hbody⟩ := exists_writesNodes ih
    exact ⟨_, body, _, .intro name distinct hraw (List.forall_mem_nil _), hbody, .pair (List.forall_mem_nil _)⟩

theorem WritesTag.keys {name : String} {attributes : List (String × String)} {tag : List Char}
    (h : WritesTag name attributes tag) : ∀ a ∈ attributes, IsName a.1.toList := by
  obtain ⟨-, -, hraw, -⟩ := h
  induction hraw with
  | nil => exact List.forall_mem_nil _
  | cons _ _ _ _ hkey _ _ _ ih => exact List.forall_mem_cons.2 ⟨hkey, ih⟩

theorem Element.WellNamed.of_writes {e : Element} {tag : List Char} (htag : WritesTag e.name e.attributes tag)
    (h : ∀ child ∈ e.elements, child.WellNamed) : e.WellNamed := by
  have hkeys := htag.keys
  obtain ⟨hname, hdistinct, -, -⟩ := htag
  exact ⟨hname, hkeys, hdistinct, h⟩

theorem WritesNodes.wellNamed {nodes : List Node} {raw : List Char} (h : WritesNodes nodes raw) :
    ∀ child ∈ nodes.filterMap Node.element?, child.WellNamed := by
  induction h with
  | nil => exact List.forall_mem_nil _
  | aside _ _ ih => exact ih
  | run _ _ ih => exact ih
  | cdata _ _ ih => exact ih
  | textEnd _ ih => exact ih
  | @element name attributes children _ tag _ _ _ htag _ _ _ ihchildren ih =>
    have hfirst : Element.WellNamed ⟨name, attributes, children⟩ := .of_writes htag ihchildren
    exact List.forall_mem_cons.2 ⟨hfirst, ih⟩

/-- An element can be written if its names are names and its keys distinct, and only then. -/
theorem exists_writesDocument_iff {e : Element} : (∃ text, WritesDocument e text) ↔ e.WellNamed := by
  constructor
  · rintro ⟨text, _, htag, hbody, _, _⟩
    exact .of_writes htag hbody.wellNamed
  · intro h
    obtain ⟨tag, body, written, htag, hbody, hwritten⟩ := h.writes
    exact ⟨_, .intro .nil htag hbody hwritten .nil⟩

/-! ## What is written -/

/-- Elements have the same names, attributes and texts, all the way down. Nodes may be cut in other places. -/
inductive Element.SameContent : Element → Element → Prop
  | intro {e f : Element} (name : e.name = f.name) (attributes : e.attributes = f.attributes)
    (text : e.text = f.text) (elements : List.Forall₂ Element.SameContent e.elements f.elements) :
    Element.SameContent e f

end ApiProfile.Markup
