import ApiProfile.Markup.Element
import Mathlib.Data.List.Perm.Basic
/-!
# Elements whose nodes are moved

The nodes of a block, such as a list of groups, may be written in any order. Elements are `Moved` when they
differ only in the order of the nodes of blocks in them, all the way down. We show what look-ups see of that: the
children of a block are the same up to moves and order, and those of any other element up to moves alone.
-/

namespace ApiProfile.Markup

/-- The elements whose nodes may be moved. -/
def blockNames : List String :=
  ["enums", "groups", "group", "commands"]

/-- Nodes that differ only in the order of the nodes of blocks in them. The elements named in `worded` have the
same text as well. -/
inductive Node.Moved (worded : List String) : Node → Node → Prop
  | text (content : String) : Node.Moved worded (.text content) (.text content)
  | element {name : String} {attributes : List (String × String)} {children inside moved : List Node}
    (hinside : List.Forall₂ (Node.Moved worded) children inside)
    (horder : inside = moved ∨ name ∈ blockNames ∧ inside.Perm moved)
    (htext : name ∈ worded → Element.text ⟨name, attributes, children⟩ = Element.text ⟨name, attributes, moved⟩) :
    Node.Moved worded (.element name attributes children) (.element name attributes moved)

/-- Elements that differ only in the order of the nodes of blocks. -/
def Element.Moved (worded : List String) (e f : Element) : Prop :=
  e.toNode.Moved worded f.toNode

/-- Nodes in another order, and with nodes moved in them. -/
def Shuffled (worded : List String) (nodes others : List Node) : Prop :=
  ∃ inside, List.Forall₂ (Node.Moved worded) nodes inside ∧ inside.Perm others

mutual

theorem Node.Moved.refl (worded : List String) : (node : Node) → node.Moved worded node
  | .text content => .text content
  | .element _ _ children => .element (movedNodes_refl worded children) (.inl rfl) fun _ => rfl

theorem movedNodes_refl (worded : List String) : (nodes : List Node) → List.Forall₂ (Node.Moved worded) nodes nodes
  | [] => .nil
  | node :: nodes => .cons (Node.Moved.refl worded node) (movedNodes_refl worded nodes)

end

variable {worded : List String} {e f : Element}

theorem Node.Moved.block {name : String} {attributes : List (String × String)} {children moved : List Node}
    (hname : name ∈ blockNames) (hworded : name ∉ worded) (hperm : children.Perm moved) :
    Node.Moved worded (.element name attributes children) (.element name attributes moved) :=
  .element (movedNodes_refl worded children) (.inr ⟨hname, hperm⟩) fun h => absurd h hworded

/-! ## Moved elements -/

namespace Element.Moved

theorem name (h : e.Moved worded f) : e.name = f.name := by
  cases e; cases f; cases h
  rfl

theorem attributes (h : e.Moved worded f) : e.attributes = f.attributes := by
  cases e; cases f; cases h
  rfl

theorem text (h : e.Moved worded f) (hname : e.name ∈ worded) : e.text = f.text := by
  cases e; cases f
  cases h with
  | element hinside horder htext => exact htext hname

theorem children (h : e.Moved worded f) : ∃ inside, List.Forall₂ (Node.Moved worded) e.children inside ∧
    (inside = f.children ∨ e.name ∈ blockNames ∧ inside.Perm f.children) := by
  cases e; cases f
  cases h with
  | element hinside horder htext => exact ⟨_, hinside, horder⟩

theorem shuffled (h : e.Moved worded f) : Shuffled worded e.children f.children := by
  obtain ⟨inside, hinside, rfl | ⟨-, hperm⟩⟩ := h.children
  · exact ⟨f.children, hinside, .refl _⟩
  · exact ⟨inside, hinside, hperm⟩

/-- Outside of blocks nothing changes its place. -/
theorem inOrder (h : e.Moved worded f) (hname : e.name ∉ blockNames) :
    List.Forall₂ (Node.Moved worded) e.children f.children := by
  obtain ⟨inside, hinside, rfl | ⟨hblock, -⟩⟩ := h.children
  · exact hinside
  · exact absurd hblock hname

theorem attribute? (h : e.Moved worded f) (key : String) : e.attribute? key = f.attribute? key := by
  unfold Element.attribute?
  rw [h.attributes]

theorem requiredAttribute (h : e.Moved worded f) (key : String) : e.requiredAttribute key = f.requiredAttribute key := by
  unfold Element.requiredAttribute
  rw [h.attribute?, h.name]

end Element.Moved

/-! ## Children in order -/

theorem elements_of_moved {nodes others : List Node} (h : List.Forall₂ (Node.Moved worded) nodes others) :
    List.Forall₂ (Element.Moved worded) (nodes.filterMap Node.element?) (others.filterMap Node.element?) := by
  induction h with
  | nil => exact .nil
  | cons hnode _ ih =>
    cases hnode with
    | text content => exact ih
    | element hinside horder htext => exact .cons (.element hinside horder htext) ih

theorem name_of_mem_elementsNamed {name : String} {a : Element} (h : a ∈ e.elementsNamed name) : a.name = name := by
  simpa using (List.mem_filter.1 h).2

theorem Element.Moved.elementsNamed (h : e.Moved worded f) (hname : e.name ∉ blockNames) (name : String) :
    List.Forall₂ (fun a b => a.name = name ∧ a.Moved worded b) (e.elementsNamed name) (f.elementsNamed name) := by
  rw [List.forall₂_and_left]
  refine ⟨fun a ha => name_of_mem_elementsNamed ha, ?_⟩
  exact List.rel_filter (fun a b hab => by simp [hab.name]) (elements_of_moved (h.inOrder hname))

/-- A child of an element that is no block is the same up to moves, or missing in both. -/
theorem Element.Moved.requiredChild (h : e.Moved worded f) (hname : e.name ∉ blockNames) (name : String) :
    (∃ a b, e.requiredChild name = .ok a ∧ f.requiredChild name = .ok b ∧ a.name = name ∧ a.Moved worded b) ∨
      ∃ fault, e.requiredChild name = .error fault ∧ f.requiredChild name = .error fault := by
  have helements : List.Forall₂ (Element.Moved worded) e.elements f.elements := elements_of_moved (h.inOrder hname)
  unfold Element.requiredChild Element.child?
  rw [h.name]
  generalize e.elements = es, f.elements = fs at helements
  induction helements with
  | nil => exact .inr ⟨_, rfl, rfl⟩
  | @cons a b as bs hab _ ih =>
    by_cases ha : a.name = name
    · simp only [List.find?_cons, ha, ← hab.name, decide_true]
      exact .inl ⟨a, b, rfl, rfl, ha, hab⟩
    · simpa only [List.find?_cons, ha, ← hab.name, decide_false] using ih

/-! ## Children in any order -/

/-- What is made of each child in nodes, in their order, is the same up to the order, if moves do not matter to it. -/
theorem Shuffled.perm_flatMap {nodes others : List Node} (h : Shuffled worded nodes others) {γ : Type}
    {made : Element → List γ} (hmade : ∀ a b, a.Moved worded b → (made a).Perm (made b)) :
    ((nodes.filterMap Node.element?).flatMap made).Perm ((others.filterMap Node.element?).flatMap made) := by
  obtain ⟨inside, hinside, hperm⟩ := h
  have hmoved : ∀ {es fs : List Element}, List.Forall₂ (Element.Moved worded) es fs →
      (es.flatMap made).Perm (fs.flatMap made) := by
    intro es fs h
    induction h with
    | nil => exact .refl _
    | cons hab _ ih =>
      simp only [List.flatMap_cons]
      exact (hmade _ _ hab).append ih
  exact (hmoved (elements_of_moved hinside)).trans ((hperm.filterMap Node.element?).flatMap_right made)

theorem Shuffled.perm_map (h : Shuffled worded e.children f.children) {γ : Type} {made : Element → γ}
    (hmade : ∀ a b, a.Moved worded b → made a = made b) : (e.elements.map made).Perm (f.elements.map made) := by
  simp only [List.map_eq_flatMap]
  apply h.perm_flatMap
  intro a b hab
  rw [hmade a b hab]

theorem Shuffled.perm_flatMap_named (h : Shuffled worded e.children f.children) (name : String) {γ : Type}
    {made : Element → List γ} (hmade : ∀ a b, a.name = name → a.Moved worded b → (made a).Perm (made b)) :
    ((e.elementsNamed name).flatMap made).Perm ((f.elementsNamed name).flatMap made) := by
  have hnamed : ∀ es : List Element, (es.filter (·.name = name)).flatMap made =
      es.flatMap fun a => if a.name = name then made a else [] := by
    intro es
    induction es with
    | nil => rfl
    | cons a es ih => by_cases ha : a.name = name <;> simp [ha, ih]
  unfold Element.elementsNamed Element.elements
  rw [hnamed, hnamed]
  apply h.perm_flatMap
  intro a b hab
  by_cases ha : a.name = name
  · rw [if_pos ha, if_pos (hab.name ▸ ha)]
    exact hmade a b ha hab
  · rw [if_neg ha, if_neg (hab.name ▸ ha)]

theorem Shuffled.perm_map_named (h : Shuffled worded e.children f.children) (name : String) {γ : Type}
    {made : Element → γ} (hmade : ∀ a b, a.name = name → a.Moved worded b → made a = made b) :
    ((e.elementsNamed name).map made).Perm ((f.elementsNamed name).map made) := by
  simp only [List.map_eq_flatMap]
  apply h.perm_flatMap_named
  intro a b ha hab
  rw [hmade a b ha hab]

end ApiProfile.Markup
