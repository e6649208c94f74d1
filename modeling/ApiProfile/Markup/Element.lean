import ApiProfile.Failure
/-!
# Elements

The tree of a document: an element has a name, attributes, and nodes, each a text or an element, in
document order. Formats are described by look-ups on it.
-/

namespace ApiProfile.Markup

/-- A text or an element, with everything below it. -/
inductive Node
  | text (content : String)
  | element (name : String) (attributes : List (String × String)) (children : List Node)
  deriving Repr, BEq, Inhabited

/-- An element with its attributes and nodes in document order. -/
structure Element where
  name : String
  attributes : List (String × String)
  children : List Node
  deriving Repr, BEq, Inhabited

mutual

def Node.decEq : (a b : Node) → Decidable (a = b)
  | .text s, .text t => decidable_of_iff (s = t) (by simp)
  | .text _, .element .. => isFalse nofun
  | .element .., .text _ => isFalse nofun
  | .element name attributes children, .element name' attributes' children' =>
    let _ := decEqNodes children children'
    decidable_of_iff (name = name' ∧ attributes = attributes' ∧ children = children') (by simp)

def decEqNodes : (as bs : List Node) → Decidable (as = bs)
  | [], [] => isTrue rfl
  | [], _ :: _ => isFalse nofun
  | _ :: _, [] => isFalse nofun
  | a :: as, b :: bs =>
    let _ := Node.decEq a b
    let _ := decEqNodes as bs
    decidable_of_iff (a = b ∧ as = bs) (by simp)

end

instance : DecidableEq Node := Node.decEq

deriving instance DecidableEq for Element

def Element.toNode (e : Element) : Node :=
  .element e.name e.attributes e.children

def Node.element? : Node → Option Element
  | .text _ => none
  | .element name attributes children => some ⟨name, attributes, children⟩

@[simp] theorem Node.element?_toNode (e : Element) : e.toNode.element? = some e := rfl

mutual

/-- The texts at and below a node, in document order. -/
def Node.texts : Node → List String
  | .text content => [content]
  | .element _ _ children => textsOfNodes children

/-- The texts at and below a list of nodes, in document order. -/
def textsOfNodes : List Node → List String
  | [] => []
  | node :: nodes => node.texts ++ textsOfNodes nodes

end

namespace Element

/-- All text of the element and of the elements below it. -/
def text (e : Element) : String :=
  String.join (textsOfNodes e.children)

def attribute? (e : Element) (key : String) : Option String :=
  e.attributes.lookup key

def requiredAttribute (e : Element) (key : String) : Except Failure String :=
  match e.attribute? key with
  | some value => .ok value
  | none => .error (.missingAttribute e.name key)

theorem requiredAttribute_eq_ok {e : Element} {key value : String} :
    e.requiredAttribute key = .ok value ↔ e.attribute? key = some value := by
  unfold requiredAttribute
  cases e.attribute? key <;> simp

def elements (e : Element) : List Element :=
  e.children.filterMap Node.element?

def elementsNamed (e : Element) (name : String) : List Element :=
  e.elements.filter (·.name = name)

def child? (e : Element) (name : String) : Option Element :=
  e.elements.find? (·.name = name)

/-- The first child element of a name, which must be there. -/
def requiredChild (e : Element) (name : String) : Except Failure Element :=
  match e.child? name with
  | some child => .ok child
  | none => .error (.missingElement e.name name)

theorem requiredChild_eq_ok {e child : Element} {name : String} :
    e.requiredChild name = .ok child ↔ e.child? name = some child := by
  unfold requiredChild
  cases e.child? name <;> simp

end Element
end ApiProfile.Markup
