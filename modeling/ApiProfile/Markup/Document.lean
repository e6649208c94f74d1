import ApiProfile.Markup.Element
import ApiProfile.Markup.Tag
import ApiProfile.Text.Basic
/-!
# Documents

Builds the tree of a document from its tokens: an opening tag opens an element inside the innermost
open one, a closing tag must name that one and closes it, and text belongs to it. A document has one
element at the top. `Element.ofDocument` reports a fault with the line that the reader stopped on.
-/

namespace ApiProfile.Markup

/-- An element that is open, with its nodes newest first. -/
structure OpenElement where
  name : String
  attributes : List (String × String)
  newest : List Node
  deriving Repr, Inhabited

/-- The element that closing makes of an open one. -/
def OpenElement.close (e : OpenElement) : Element :=
  ⟨e.name, e.attributes, e.newest.reverse⟩

/-- The open elements, innermost first, and the element at the top once it is closed. -/
structure Builder where
  pending : List OpenElement
  root : Option Element
  deriving Repr, Inhabited

namespace Builder

def start : Builder := ⟨[], none⟩

/-- Adds a node to the innermost open element; outside of all elements it is left out. -/
def push (b : Builder) (node : Node) : Builder :=
  match b.pending with
  | [] => b
  | inner :: outer => { b with pending := { inner with newest := node :: inner.newest } :: outer }

/-- Adds a complete element to the innermost open one, or makes it the element at the top. -/
def complete (b : Builder) (e : Element) : Except Failure Builder :=
  match b.pending, b.root with
  | _ :: _, _ => .ok (b.push e.toNode)
  | [], none => .ok { b with root := some e }
  | [], some _ => .error (.malformedDocument ("second root element <" ++ e.name ++ ">"))

/-- The start of an element, from the content of its tag. -/
def opened (content : List Char) : Except Failure OpenElement :=
  match attributes (splitName content).2 with
  | .ok attributes => .ok ⟨String.ofList (splitName content).1, attributes, []⟩
  | .error fault => .error fault

def step (b : Builder) : Token → Except Failure Builder
  | .aside => .ok b
  | .text raw =>
    if b.pending.isEmpty then .ok b
    else match unescape raw with
      | some content => .ok (b.push (.text (String.ofList content)))
      | none => .error .badMarkup
  | .cdata content => .ok (b.push (.text (String.ofList content)))
  | .openTag content =>
    match opened content with
    | .ok e => .ok { b with pending := e :: b.pending }
    | .error fault => .error fault
  | .emptyTag content =>
    match opened content with
    | .ok e => b.complete e.close
    | .error fault => .error fault
  | .closeTag content =>
    match b.pending with
    | [] => .error .badMarkup
    | inner :: outer =>
      if inner.name = String.ofList content then { b with pending := outer }.complete inner.close
      else .error .badMarkup

/-- Takes in tokens to the end of the text. A fault comes with the text behind its place. -/
def run (b : Builder) : List (Token × List Char) → Except (Failure × List Char) Builder
  | [] => .ok b
  | (token, rest) :: more =>
    match b.step token with
    | .ok next => next.run more
    | .error fault => .error (fault, rest)

/-- The element at the top, at the end of the text. -/
def finish (b : Builder) : Except Failure Element :=
  match b.pending, b.root with
  | inner :: _, _ => .error (.malformedDocument ("element <" ++ inner.name ++ "> is never closed"))
  | [], none => .error (.malformedDocument "document has no root element")
  | [], some e => .ok e

end Builder

/-- The element at the top of a document, or the first fault with the text behind its place. -/
def Element.ofTokens (tokens : Tokens) : Except (Failure × List Char) Element :=
  match Builder.start.run tokens.list with
  | .error fault => .error fault
  | .ok b =>
    match tokens.broken with
    | some rest => .error (.badMarkup, rest)
    | none =>
      match b.finish with
      | .ok e => .ok e
      | .error fault => .error (fault, [])

/-- The element at the top of a document. The place of a fault is the number of bytes read up to it,
where a mark at the start does not count; its line is looked up in the text with the mark. -/
def Element.ofDocument (document : String) : Except Failure Element :=
  let text := document.toList
  let body := Text.dropByteOrderMark text
  match Element.ofTokens (tokens body) with
  | .ok e => .ok e
  | .error (fault, rest) =>
    .error (.atLine (Text.lineAt text (Text.byteLength body - Text.byteLength rest)) fault)

end ApiProfile.Markup
