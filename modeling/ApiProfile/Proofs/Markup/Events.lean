import ApiProfile.Proofs.Markup.Tags
/-!
# The events of a document

What a document says as a stream, without a tree: where elements start, with all attributes that their tags have, where
they stop, and the texts in them. A tag at which an element stops must name the innermost open one, attributes and the
texts inside elements must be readable; all else (asides, and texts outside of elements) says nothing. The stream has an
`Outline`: the elements that are still open at its end, and those at the top that are complete by then.
-/

namespace ApiProfile.Markup

/-- A start or an end of an element, or a text in one. An empty tag is a start and an end. -/
inductive Event
  | start (name : String) (attributes : List (String × String))
  | stop (name : String)
  | text (content : String)
  deriving DecidableEq, Repr

/-! ## Outlines -/

/-- The names of the open elements, innermost first, and of the complete elements at the top in order. -/
structure Outline where
  pending : List String
  completed : List String
  deriving DecidableEq, Repr

namespace Outline

def start : Outline := ⟨[], []⟩

/-- An element is complete: it is at the top unless it is in an open one. -/
def complete (o : Outline) (name : String) : Outline :=
  if o.pending = [] then { o with completed := o.completed ++ [name] } else o

def take (o : Outline) : Event → Outline
  | .start name _ => { o with pending := name :: o.pending }
  | .stop _ =>
    match o.pending with
    | [] => o
    | inner :: outer => { o with pending := outer }.complete inner
  | .text _ => o

def takeAll (o : Outline) (events : List Event) : Outline :=
  events.foldl take o

/-- What is wrong with a whole document of this outline, if anything is. -/
def fault? (o : Outline) : Option String :=
  match o.completed, o.pending with
  | _ :: second :: _, _ => some ("second root element <" ++ second ++ ">")
  | _, inner :: _ => some ("element <" ++ inner ++ "> is never closed")
  | [], [] => some "document has no root element"
  | [_], [] => none

theorem takeAll_append (o : Outline) (events more : List Event) :
    o.takeAll (events ++ more) = (o.takeAll events).takeAll more :=
  List.foldl_append

/-- What is complete stays complete. -/
theorem completed_prefix_takeAll (o : Outline) (events : List Event) :
    o.completed <+: (o.takeAll events).completed := by
  induction events generalizing o with
  | nil => exact List.prefix_rfl
  | cons event events ih =>
    have htake : o.completed <+: (o.take event).completed := by
      cases event with
      | start name attributes => exact List.prefix_rfl
      | text content => exact List.prefix_rfl
      | stop name =>
        obtain ⟨pending, completed⟩ := o
        match pending with
        | [] => exact List.prefix_rfl
        | [_] => exact List.prefix_append ..
        | _ :: _ :: _ => exact List.prefix_rfl
    exact htake.trans (ih (o.take event))

end Outline

/-! ## Streams -/

/-- What a token says inside the open elements of an outline, if it is in order there. -/
def Token.events? (o : Outline) : Token → Option (List Event)
  | .aside => some []
  | .text raw =>
    if o.pending = [] then some [] else (unescape raw).map fun content => [.text (String.ofList content)]
  | .cdata content => if o.pending = [] then some [] else some [.text (String.ofList content)]
  | .openTag content => (startOf? content).map fun (name, attributes) => [.start name attributes]
  | .emptyTag content => (startOf? content).map fun (name, attributes) => [.start name attributes, .stop name]
  | .closeTag content =>
    if o.pending.head? = some (String.ofList content) then some [.stop (String.ofList content)] else none

/-- What tokens say one after the other, if all of them are in order. -/
def eventsOf? : Outline → List (Token × List Char) → Option (List Event)
  | _, [] => some []
  | o, (token, _) :: more => do
    let found ← token.events? o
    let rest ← eventsOf? (o.takeAll found) more
    return found ++ rest

/-- What a document says, if it can be cut into tokens and all of them are in order. -/
def events? (document : String) : Option (List Event) :=
  let found := tokens (Text.dropByteOrderMark document.toList)
  if found.broken = none then eventsOf? .start found.list else none

theorem eventsOf?_cons {o : Outline} {token : Token} {rest : List Char} {more : List (Token × List Char)}
    {events : List Event} :
    eventsOf? o ((token, rest) :: more) = some events ↔
      ∃ found later, token.events? o = some found ∧ eventsOf? (o.takeAll found) more = some later ∧
        events = found ++ later := by
  rw [eventsOf?]
  constructor
  · intro h
    obtain ⟨found, hfound, h⟩ := Option.bind_eq_some_iff.1 h
    obtain ⟨later, hlater, h⟩ := Option.bind_eq_some_iff.1 h
    exact ⟨found, later, hfound, hlater, (Option.some.inj h).symm⟩
  · rintro ⟨found, later, hfound, hlater, rfl⟩
    exact Option.bind_eq_some_iff.2 ⟨found, hfound, Option.bind_eq_some_iff.2 ⟨later, hlater, rfl⟩⟩

/-! ## Events of a tree -/

mutual

/-- The start of an element, its nodes in order, and its end. -/
def Node.events : Node → List Event
  | .text content => [.text content]
  | .element name attributes children => .start name attributes :: (eventsOfNodes children ++ [.stop name])

def eventsOfNodes : List Node → List Event
  | [] => []
  | node :: nodes => node.events ++ eventsOfNodes nodes

end

def Element.events (e : Element) : List Event :=
  e.toNode.events

theorem eventsOfNodes_append (nodes more : List Node) :
    eventsOfNodes (nodes ++ more) = eventsOfNodes nodes ++ eventsOfNodes more := by
  induction nodes with
  | nil => rfl
  | cons node nodes ih => rw [List.cons_append, eventsOfNodes, eventsOfNodes, ih, List.append_assoc]

/-! ## Keys of attributes -/

/-- No start has two attributes of the same key. -/
def Event.Distinct : Event → Prop
  | .start _ attributes => (attributes.map (·.1)).Nodup
  | _ => True

theorem Token.distinct_of_events? {o : Outline} {token : Token} {found : List Event}
    (h : token.events? o = some found) : ∀ event ∈ found, event.Distinct := by
  unfold Token.events? at h
  cases token with
  | aside =>
    cases h
    exact nofun
  | text raw =>
    dsimp only at h
    split at h
    · cases h
      exact nofun
    · obtain ⟨content, -, rfl⟩ := Option.map_eq_some_iff.1 h
      exact List.forall_mem_singleton.2 trivial
  | cdata content =>
    dsimp only at h
    split at h <;> cases h
    · exact nofun
    · exact List.forall_mem_singleton.2 trivial
  | openTag content =>
    obtain ⟨⟨name, attributes⟩, hstart, rfl⟩ := Option.map_eq_some_iff.1 h
    exact List.forall_mem_singleton.2 (nodup_of_startOf? hstart)
  | emptyTag content =>
    obtain ⟨⟨name, attributes⟩, hstart, rfl⟩ := Option.map_eq_some_iff.1 h
    exact List.forall_mem_cons.2 ⟨nodup_of_startOf? hstart, List.forall_mem_singleton.2 trivial⟩
  | closeTag content =>
    dsimp only at h
    split at h <;> cases h
    exact List.forall_mem_singleton.2 trivial

theorem distinct_of_eventsOf? {o : Outline} {tokens : List (Token × List Char)} {events : List Event}
    (h : eventsOf? o tokens = some events) : ∀ event ∈ events, event.Distinct := by
  induction tokens generalizing o events with
  | nil =>
    cases h
    exact nofun
  | cons token more ih =>
    obtain ⟨found, later, hfound, hlater, rfl⟩ := eventsOf?_cons.1 h
    intro event hevent
    rcases List.mem_append.1 hevent with hevent | hevent
    · exact Token.distinct_of_events? hfound event hevent
    · exact ih hlater event hevent

theorem distinct_of_events? {document : String} {events : List Event} (h : events? document = some events) :
    ∀ event ∈ events, event.Distinct := by
  unfold events? at h
  dsimp only at h
  split at h
  · exact distinct_of_eventsOf? h
  · cases h

end ApiProfile.Markup
