import ApiProfile.Diagnostic
import ApiProfile.Signature
import ApiProfile.TypeTable
/-!
# Representing signatures

Puts the representations of a type table in place of the types of signatures. A type that the table
does not have stays as it is; each use of one is recorded, in the order of signatures and in each the
parameters before the result. Under the strict policy such types make the profile fail.
-/

namespace ApiProfile

/-- What to do about types that no table has. -/
inductive UnmappedPolicy
  | lenient
  | strict
  deriving DecidableEq, Repr, Inhabited

def TypeTable.represent (t : TypeTable) (type : CType) : CType :=
  (t.map? type).getD type

def TypeTable.representGrouped (t : TypeTable) (grouped : GroupedType) : GroupedType :=
  ⟨t.represent grouped.type, grouped.group⟩

namespace Signature

def represent (t : TypeTable) (s : Signature) : Signature where
  name := s.name
  result := t.representGrouped s.result
  parameters := s.parameters.map fun p => { p with type := t.representGrouped p.type }

/-- The types that the signature uses: those of the parameters, then the result. -/
def types (s : Signature) : List CType :=
  s.parameters.map (·.type.type) ++ [s.result.type]

/-- Records each use of a type that the table does not have. -/
def noteUnmapped (t : TypeTable) (ds : Diagnostics) (s : Signature) : Diagnostics :=
  s.types.foldl
    (fun ds type => if (t.map? type).isSome then ds else ds.unmappedType type.base s.name) ds

end Signature

/-- The signatures with represented types, and the findings about types that the table does not
have. -/
def TypeTable.representAll (t : TypeTable) (policy : UnmappedPolicy) (signatures : List Signature) :
    Except Failure (List Signature × Diagnostics) :=
  let findings := signatures.foldl (Signature.noteUnmapped t) .empty
  let unmapped := (findings.withCode .unmappedType).map (·.subject)
  if policy = .strict ∧ unmapped ≠ [] then .error (.unmappedTypes unmapped)
  else .ok (signatures.map (·.represent t), findings)

end ApiProfile
