import ApiProfile.Table
/-!
# JSON values

Values of the data format that profiles are written in, and readers for the shapes they have: whole
numbers in a range, lists, tables, records and tags. A reader takes a value of its shape or nothing.
-/

namespace ApiProfile

/-- A JSON value. A decimal stands for its digits divided by ten to the number of places. Members of
an object are in the order of writing. -/
inductive Json
  | null
  | bool (value : Bool)
  | integer (value : Int)
  | decimal (digits : Int) (places : Nat)
  | string (value : String)
  | array (items : List Json)
  | object (members : List (String × Json))
  deriving Repr, BEq, Inhabited

namespace Json

def string? : Json → Option String
  | string value => some value
  | _ => none

def integer? : Json → Option Int
  | integer value => some value
  | _ => none

def int64? (j : Json) : Option Int64 :=
  (j.integer?.filter fun n => Int64.minValue.toInt ≤ n && n ≤ Int64.maxValue.toInt).map Int64.ofInt

def uint32? (j : Json) : Option UInt32 :=
  (j.integer?.filter fun n => 0 ≤ n && n < 0x100000000).map fun n => UInt32.ofNat n.toNat

def list? {α : Type} (item? : Json → Option α) : Json → Option (List α)
  | array items => items.mapM item?
  | _ => none

/-- A table of what `item?` reads; its keys need not be the names inside the values. -/
def table? {α : Type} (item? : Json → Option α) : Json → Option (Table α)
  | object members =>
    (members.mapM fun m => (item? m.2).map fun item => (m.1, item)).map Table.ofList
  | _ => none

/-- The members of a record that has at most these fields: an object, or an array that gives the first
fields in order. -/
def record? (fields : List String) : Json → Option (List (String × Json))
  | object members => some members
  | array items => if items.length ≤ fields.length then some (fields.zip items) else none
  | _ => none

def required? {α : Type} (members : List (String × Json)) (field : String)
    (value? : Json → Option α) : Option α :=
  (members.lookup field).bind value?

/-- A member that may be left out, or be null. -/
def optional? {α : Type} (members : List (String × Json)) (field : String)
    (value? : Json → Option α) : Option (Option α) :=
  match members.lookup field with
  | none | some null => some none
  | some j => (value? j).map some

def defaulted? {α : Type} (members : List (String × Json)) (field : String)
    (default : α) (value? : Json → Option α) : Option α :=
  match members.lookup field with
  | none => some default
  | some j => value? j

/-- A tag out of a list: its text, or an object with the text as only key and null as value. -/
def tag? {α : Type} (tags : List (String × α)) : Json → Option α
  | string text => tags.lookup text
  | object [(text, null)] => tags.lookup text
  | _ => none

/-- The member of an object for a value that may be missing. -/
def optionalMember {α : Type} (field : String) (write : α → Json) : Option α → List (String × Json)
  | some value => [(field, write value)]
  | none => []

def ofTable {α : Type} (write : α → Json) (t : Table α) : Json :=
  object (t.entries.map fun (key, value) => (key, write value))

end Json
end ApiProfile
