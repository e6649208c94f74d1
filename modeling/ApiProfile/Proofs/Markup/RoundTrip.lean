import ApiProfile.Proofs.Markup.Building
import ApiProfile.Proofs.Markup.Lexing
import Mathlib.Data.List.Forall2
/-!
# Reading back what was written

However an element is written, reading the document succeeds and gives an element with the same content
(`Element.ofDocument_written`). The proof goes by the way the nodes were written. Runs of text that follow
each other are one token, so what has been written of a run so far is carried along until markup comes.
-/

namespace ApiProfile.Markup

/-! ## Nodes with the same content -/

theorem textsOfNodes_append (ns ms : List Node) : textsOfNodes (ns ++ ms) = textsOfNodes ns ++ textsOfNodes ms := by
  induction ns with
  | nil => rfl
  | cons node ns ih => rw [List.cons_append, textsOfNodes, textsOfNodes, ih, List.append_assoc]

/-- All text in nodes. -/
def textOf (nodes : List Node) : String :=
  String.join (textsOfNodes nodes)

theorem textOf_append (ns ms : List Node) : textOf (ns ++ ms) = textOf ns ++ textOf ms := by
  unfold textOf
  rw [textsOfNodes_append, String.join_append]

theorem textOf_text (content : String) (nodes : List Node) :
    textOf (.text content :: nodes) = content ++ textOf nodes := by
  unfold textOf
  rw [textsOfNodes, Node.texts, String.join_append, String.join_cons, String.join_nil, String.append_empty]

theorem textOf_toNode (e : Element) : textOf [e.toNode] = e.text := by
  unfold textOf Element.toNode
  rw [textsOfNodes, Node.texts, textsOfNodes, List.append_nil]
  rfl

/-- Nodes have the same text, and the elements among them the same content. -/
structure SameNodes (ns ms : List Node) : Prop where
  text : textOf ns = textOf ms
  elements : List.Forall₂ Element.SameContent (ns.filterMap Node.element?) (ms.filterMap Node.element?)

theorem SameNodes.append {ns ms ns' ms' : List Node} (h : SameNodes ns ms) (h' : SameNodes ns' ms') :
    SameNodes (ns ++ ns') (ms ++ ms') := by
  refine ⟨by rw [textOf_append, textOf_append, h.text, h'.text], ?_⟩
  rw [List.filterMap_append, List.filterMap_append]
  exact List.rel_append h.elements h'.elements

/-- Texts may be cut in other places. -/
theorem SameNodes.recut {ns ms ms' : List Node} (h : SameNodes ns ms) (htext : textOf ms = textOf ms')
    (helements : ms.filterMap Node.element? = ms'.filterMap Node.element?) : SameNodes ns ms' :=
  ⟨h.text.trans htext, helements ▸ h.elements⟩

/-- A text that is empty counts for nothing. -/
theorem SameNodes.of_empty {ns ms : List Node} (h : SameNodes ns (.text (String.ofList []) :: ms)) : SameNodes ns ms :=
  h.recut (by rw [textOf_text, String.ofList_nil, String.empty_append]) rfl

theorem SameNodes.refl_text (content : String) : SameNodes [.text content] [.text content] :=
  ⟨rfl, .nil⟩

theorem SameNodes.of_sameContent {e f : Element} (h : e.SameContent f) : SameNodes [e.toNode] [f.toNode] := by
  obtain ⟨-, -, htext, -⟩ := id h
  refine ⟨?_, .cons h .nil⟩
  rw [textOf_toNode, textOf_toNode]
  exact htext

theorem SameNodes.sameContent {name : String} {attributes : List (String × String)} {ns ms : List Node}
    (h : SameNodes ns ms) : Element.SameContent ⟨name, attributes, ns⟩ ⟨name, attributes, ms⟩ :=
  ⟨rfl, rfl, h.text, h.elements⟩

/-! ## Runs of text -/

/-- Inside of an element a text in front of markup is read as nodes. -/
def Adds (raw : List Char) (found : List Node) : Prop :=
  ∀ inner outer root rest, parseFrom ⟨inner :: outer, root⟩ (raw ++ '<' :: rest) =
    parseFrom ⟨{ inner with newest := found.reverse ++ inner.newest } :: outer, root⟩ ('<' :: rest)

/-- A run of text that markup ends is one text, or none. -/
theorem adds_run {content raw : List Char} (h : Escapes (· ≠ '<') content raw) :
    ∃ found, SameNodes found [.text (String.ofList content)] ∧ Adds raw found := by
  by_cases hraw : raw = []
  · subst hraw
    cases h
    exact ⟨[], ⟨rfl, .nil⟩, fun _ _ _ _ => rfl⟩
  · refine ⟨[.text (String.ofList content)], ⟨rfl, .nil⟩, fun inner outer root rest => ?_⟩
    refine parseFrom_token (next_text hraw h.ne_open ?_) ?_
    · intro c hc
      exact (Option.some.inj hc).symm
    · unfold Builder.step
      dsimp only
      rw [unescape_of_escapes h]
      rfl

/-- Markup behind a run of text ends the run. What comes behind the markup is read as before. -/
theorem Adds.markup {pending piece raw : List Char} {first middle last : List Node} (hpending : Adds pending first)
    (hopen : piece.head? = some '<') (hpiece : ∀ inner outer root rest,
      parseFrom ⟨inner :: outer, root⟩ (piece ++ rest) =
        parseFrom ⟨{ inner with newest := middle.reverse ++ inner.newest } :: outer, root⟩ rest)
    (hraw : Adds raw last) : Adds (pending ++ (piece ++ raw)) (first ++ (middle ++ last)) := by
  intro inner outer root rest
  obtain ⟨markup, rfl⟩ := List.head?_eq_some_iff.1 hopen
  have hfirst := hpending inner outer root (markup ++ (raw ++ '<' :: rest))
  have hsplit : pending ++ ('<' :: markup ++ raw) ++ '<' :: rest =
      pending ++ '<' :: (markup ++ (raw ++ '<' :: rest)) := by simp
  rw [hsplit, hfirst, ← List.cons_append, hpiece, hraw]
  simp only [List.reverse_append, List.append_assoc]

theorem IsAside.head? {piece : List Char} (h : IsAside piece) : piece.head? = some '<' := by
  cases h <;> rfl

theorem Encloses.head? {name : String} {tag body written : List Char} {children : List Node}
    (h : Encloses name tag children body written) : written.head? = some '<' := by
  cases h <;> rfl

theorem head?_append_of_open {piece : List Char} (h : piece.head? = some '<') (rest : List Char) :
    ∀ c ∈ (piece ++ rest).head?, c = '<' := by
  obtain ⟨markup, rfl⟩ := List.head?_eq_some_iff.1 h
  intro c hc
  exact (Option.some.inj hc).symm

/-! ## Elements -/

/-- An element that is written around what is read as its children is read as one. -/
theorem parseFrom_enclosed {name : String} {attributes : List (String × String)} {children found : List Node}
    {tag body written : List Char} (htag : WritesTag name attributes tag)
    (hwritten : Encloses name tag children body written) (hfound : SameNodes found children) (hbody : Adds body found) :
    ∃ f, Element.SameContent f ⟨name, attributes, children⟩ ∧
      ∀ b b' rest, b.complete f = .ok b' → parseFrom b (written ++ rest) = parseFrom b' rest := by
  have hopened := opened_written htag
  cases hwritten with
  | @pair _ _ gap hgap =>
    refine ⟨⟨name, attributes, found⟩, hfound.sameContent, fun b b' rest hcomplete => ?_⟩
    have hname : IsName name.toList := by
      obtain ⟨hname, -, -, -⟩ := htag
      exact hname
    have hstart : b.step (.openTag tag) = .ok ⟨⟨name, attributes, []⟩ :: b.pending, b.root⟩ := by
      unfold Builder.step
      dsimp only
      rw [hopened]
    have hend : Builder.step ⟨⟨name, attributes, found.reverse ++ []⟩ :: b.pending, b.root⟩ (.closeTag name.toList) =
        .ok b' := by
      unfold Builder.step OpenElement.close
      dsimp only
      rw [if_pos String.ofList_toList.symm, List.append_nil, List.reverse_reverse]
      exact hcomplete
    have hsplit : '<' :: tag ++ '>' :: body ++ "</".toList ++ name.toList ++ gap ++ ['>'] ++ rest =
        '<' :: tag ++ '>' :: (body ++ ("</".toList ++ name.toList ++ gap ++ '>' :: rest)) := by simp
    rw [hsplit, parseFrom_token (next_openTag htag _) hstart]
    exact (hbody _ _ _ _).trans (parseFrom_token (next_closeTag hname hgap rest) hend)
  | empty =>
    refine ⟨⟨name, attributes, []⟩, SameNodes.sameContent ⟨rfl, .nil⟩, fun b b' rest hcomplete => ?_⟩
    refine parseFrom_token (next_emptyTag htag rest) ?_
    unfold Builder.step
    dsimp only
    rw [hopened]
    exact hcomplete

/-! ## Nodes -/

/-- What was written for nodes, behind a run of text, is read as nodes with the same content. -/
theorem adds_nodes {nodes : List Node} {raw : List Char} (h : WritesNodes nodes raw) {content pending : List Char}
    (hpending : Escapes (· ≠ '<') content pending) :
    ∃ found, SameNodes found (.text (String.ofList content) :: nodes) ∧ Adds (pending ++ raw) found := by
  -- what is pending grows with each run, and starts anew behind markup
  induction h generalizing content pending with
  | nil =>
    rw [List.append_nil]
    exact adds_run hpending
  | @run content' piece raw more nodes hpiece _ ih =>
    obtain ⟨found, hfound, hadds⟩ := ih (hpending.append hpiece)
    rw [List.append_assoc] at hadds
    refine ⟨found, hfound.recut ?_ rfl, hadds⟩
    simp only [textOf_text, String.ofList_append, String.append_assoc]
  | @textEnd raw nodes _ ih =>
    obtain ⟨found, hfound, hadds⟩ := ih hpending
    refine ⟨found, hfound.recut ?_ rfl, hadds⟩
    rw [textOf_text, textOf_text, textOf_text, String.empty_append]
  | aside hpiece _ ih =>
    obtain ⟨first, hfirst, hrun⟩ := adds_run hpending
    obtain ⟨last, hlast, hadds⟩ := ih .nil
    exact ⟨first ++ ([] ++ last), hfirst.append hlast.of_empty,
      hrun.markup hpiece.head? (fun _ _ _ rest => parseFrom_token (next_aside hpiece rest) rfl) hadds⟩
  | @cdata content' raw more nodes hcontent _ ih =>
    obtain ⟨first, hfirst, hrun⟩ := adds_run hpending
    obtain ⟨last, hlast, hadds⟩ := ih .nil
    have hsame := hfirst.append ((SameNodes.refl_text (String.ofList content')).append hlast.of_empty)
    refine ⟨first ++ ([.text (String.ofList content')] ++ last), hsame.recut ?_ ?_,
      hrun.markup rfl (fun _ _ _ rest => parseFrom_token (next_cdata hcontent rest) rfl) hadds⟩
    · simp only [List.singleton_append, textOf_text, String.append_assoc]
    · rfl
  | element htag _ hwritten _ ihchildren ih =>
    obtain ⟨first, hfirst, hrun⟩ := adds_run hpending
    obtain ⟨last, hlast, hadds⟩ := ih .nil
    obtain ⟨found, hfound, hbody⟩ := ihchildren .nil
    obtain ⟨f, hf, hparse⟩ := parseFrom_enclosed htag hwritten hfound.of_empty hbody
    exact ⟨first ++ ([f.toNode] ++ last), hfirst.append ((SameNodes.of_sameContent hf).append hlast.of_empty),
      hrun.markup hwritten.head? (fun _ _ _ rest => hparse _ _ rest rfl) hadds⟩

/-! ## Documents -/

/-- Text outside of all elements says nothing. -/
theorem parseFrom_outside {raw rest : List Char} (hraw : ∀ c ∈ raw, c ≠ '<') (hrest : ∀ c ∈ rest.head?, c = '<')
    (root : Option Element) : parseFrom ⟨[], root⟩ (raw ++ rest) = parseFrom ⟨[], root⟩ rest := by
  by_cases hnil : raw = []
  · rw [hnil, List.nil_append]
  · exact parseFrom_token (next_text hnil hraw hrest) rfl

/-- Outside of all elements what is no element is passed by. -/
theorem parseFrom_surrounds {raw : List Char} (h : Surrounds raw) {blanks : List Char} (hblanks : ∀ c ∈ blanks, c ≠ '<')
    (root : Option Element) {rest : List Char} (hrest : ∀ c ∈ rest.head?, c = '<') :
    parseFrom ⟨[], root⟩ (blanks ++ raw ++ rest) = parseFrom ⟨[], root⟩ rest := by
  -- gaps that follow each other are one text
  induction h generalizing blanks with
  | nil =>
    rw [List.append_nil]
    exact parseFrom_outside hblanks hrest root
  | @gap gap raw hgap _ ih =>
    rw [← List.append_assoc]
    refine ih fun c hc => ?_
    rcases List.mem_append.1 hc with hc | hc
    · exact hblanks c hc
    · rintro rfl
      exact hgap.plain '<' hc (by decide)
  | @aside piece raw hpiece _ ih =>
    have hsplit : blanks ++ (piece ++ raw) ++ rest = blanks ++ (piece ++ ([] ++ raw ++ rest)) := by simp
    rw [hsplit, parseFrom_outside hblanks (head?_append_of_open hpiece.head? _),
      parseFrom_token (next_aside hpiece _) rfl]
    exact ih (List.forall_mem_nil _)

theorem Surrounds.head? {raw rest : List Char} (h : Surrounds raw) (hrest : ∀ c ∈ rest.head?, c ≠ '\uFEFF') :
    ∀ c ∈ (raw ++ rest).head?, c ≠ '\uFEFF' := by
  induction h with
  | nil => exact hrest
  | @gap gap raw hgap _ ih =>
    cases gap with
    | nil => exact ih
    | cons d gap =>
      intro c hc
      cases hc
      rintro rfl
      exact absurd (hgap '\uFEFF' (.head gap)) (by decide)
  | aside hpiece _ _ =>
    intro c hc
    rw [List.append_assoc] at hc
    rw [head?_append_of_open hpiece.head? _ c hc]
    decide

/-- What is written starts with no byte order mark. -/
theorem dropByteOrderMark_written {e : Element} {text : List Char} (h : WritesDocument e text) :
    Text.dropByteOrderMark text = text := by
  have hhead : ∀ c ∈ text.head?, c ≠ '\uFEFF' := by
    cases h with
    | @intro before tag body written after hbefore _ _ hwritten _ =>
      rw [List.append_assoc]
      refine hbefore.head? fun c hc => ?_
      rw [head?_append_of_open hwritten.head? after c hc]
      decide
  exact Text.dropByteOrderMark_of_head? fun hmark => hhead _ hmark rfl

/-- However an element is written, reading the document gives an element with the same content. -/
theorem Element.ofDocument_written {e : Element} {text : List Char} (h : WritesDocument e text) :
    ∃ f, Element.ofDocument (String.ofList text) = .ok f ∧ f.SameContent e := by
  have hmark := dropByteOrderMark_written h
  cases h with
  | @intro before tag body written after hbefore htag hbody hwritten hafter =>
    obtain ⟨found, hfound, hadds⟩ := adds_nodes hbody .nil
    obtain ⟨f, hf, hparse⟩ := parseFrom_enclosed htag hwritten hfound.of_empty hadds
    refine ⟨f, ?_, hf⟩
    have hopen := head?_append_of_open hwritten.head? after
    have hroot : parseFrom .start (before ++ written ++ after) = .ok f := by
      calc parseFrom .start (before ++ written ++ after)
          = parseFrom ⟨[], none⟩ ([] ++ before ++ (written ++ after)) := by rw [List.append_assoc]; rfl
        _ = parseFrom ⟨[], none⟩ (written ++ after) := parseFrom_surrounds hbefore (List.forall_mem_nil _) none hopen
        _ = parseFrom ⟨[], some f⟩ after := hparse _ _ after rfl
        _ = parseFrom ⟨[], some f⟩ ([] ++ after ++ []) := by rw [List.append_nil]; rfl
        _ = parseFrom ⟨[], some f⟩ [] := parseFrom_surrounds hafter (List.forall_mem_nil _) (some f) nofun
        _ = .ok f := parseFrom_end f
    rw [ofDocument_of_toList String.toList_ofList, hmark, ofTokens_eq, hroot]

/-- References, both quotes, a text that a comment cuts, another one in two sections, an empty tag, and blanks in
tags. -/
def noteDocument : String :=
  "<?xml version='1.0'?>
<!-- a -- b --><note kind = 'a &lt; b'
lang=\"\">x &#38;<!-- cut -->y<ref\tto='n\"1'/><![CDATA[]]]]><![CDATA[>]]><?pi?><p>q</p ></note >
"

def noteElement : Element :=
  ⟨"note", [("kind", "a < b"), ("lang", "")],
    [.text "x &y", .element "ref" [("to", "n\"1")] [], .text "]]>", .element "p" [] [.text "q"]]⟩

set_option maxRecDepth 10000 in
theorem Element.ofDocument_written_note :
    ∃ f, Element.ofDocument noteDocument = .ok f ∧ f.SameContent noteElement := by
  have hname : ∀ name ∈ ["note", "kind", "lang", "ref", "to", "p"], IsName name.toList := by
    intro name hmem
    simp only [List.mem_cons, List.not_mem_nil, or_false] at hmem
    rcases hmem with rfl | rfl | rfl | rfl | rfl | rfl <;> exact ⟨by decide, by decide, by decide⟩
  have hblank : IsGap [' '] := by decide
  have htab : IsGap ['\t'] := by decide
  have hline : IsGap ['\n'] := by decide
  have hnone : IsGap [] := by decide
  -- the tags
  have hkind : Escapes (· ≠ '\'') "a < b".toList "a &lt; b".toList :=
    Escapes.append (show Escapes _ "a ".toList _ from escapes_self (by decide))
      (.reference .lt (show Escapes _ " b".toList _ from escapes_self (by decide)))
  have hlang : Escapes (· ≠ '"') "".toList [] := .nil
  have hto : Escapes (· ≠ '\'') "n\"1".toList "n\"1".toList := escapes_self (by decide)
  have htag : WritesTag "note" [("kind", "a < b"), ("lang", "")] _ :=
    .intro (hname "note" (by decide)) (by decide)
      (.cons (List.cons_ne_nil ' ' []) hblank hblank hblank (hname "kind" (by decide)) (.inl rfl) hkind
        (.cons (List.cons_ne_nil '\n' []) hline hnone hnone (hname "lang" (by decide)) (.inr rfl) hlang .nil)) hnone
  have htagRef : WritesTag "ref" [("to", "n\"1")] _ :=
    .intro (hname "ref" (by decide)) (by decide)
      (.cons (List.cons_ne_nil '\t' []) htab hnone hnone (hname "to" (by decide)) (.inl rfl) hto .nil) hnone
  have htagP : WritesTag "p" [] "p".toList := .intro (hname "p" (by decide)) (by decide) .nil hnone
  -- the nodes, last one first
  have hq : WritesNodes [.text "q"] "q".toList :=
    .run (show Escapes _ "q".toList _ from escapes_self (by decide)) (.textEnd .nil)
  have hp : WritesNodes [.element "p" [] [.text "q"]] _ :=
    .element htagP hq (.pair hblank) .nil
  have hinstruction : IsAside ("<?".toList ++ "pi".toList ++ "?>".toList) := .instruction (by decide)
  have hsecond : ¬ "]]>".toList <:+: ">".toList := by decide
  have hfirst : ¬ "]]>".toList <:+: "]]".toList := by decide
  have hsections : WritesNodes [.text "]]>", .element "p" [] [.text "q"]] _ :=
    .cdata hfirst (.cdata hsecond (.textEnd (.aside hinstruction hp)))
  have hcut : IsAside ("<!--".toList ++ " cut ".toList ++ "-->".toList) := .comment (by decide)
  have hnumber : Denotes 10 "38".toList '&'.toNat :=
    .more (d := 8) (.digit (d := 3) (by decide) (.inl rfl)) (by decide) (.inl rfl)
  have hamp : Escapes (· ≠ '<') "x &".toList "x &#38;".toList :=
    Escapes.append (show Escapes _ "x ".toList _ from escapes_self (by decide))
      (.reference (.decimal (by decide) hnumber) .nil)
  have hbody : WritesNodes noteElement.children _ :=
    .run hamp (.aside hcut (.run (show Escapes _ "y".toList _ from escapes_self (by decide))
      (.textEnd (.element htagRef .nil .empty hsections))))
  -- the document
  have hdeclaration : IsAside ("<?".toList ++ "xml version='1.0'".toList ++ "?>".toList) := .instruction (by decide)
  have hcomment : IsAside ("<!--".toList ++ " a -- b ".toList ++ "-->".toList) := .comment (by decide)
  have hdocument := WritesDocument.intro (e := noteElement)
    (.aside hdeclaration (.gap hline (.aside hcomment .nil))) htag hbody (.pair hblank) (.gap hline .nil)
  obtain ⟨f, hf, hsame⟩ := ofDocument_written hdocument
  refine ⟨f, ?_, hsame⟩
  rw [← hf]
  exact congrArg Element.ofDocument (by decide +kernel)

end ApiProfile.Markup
