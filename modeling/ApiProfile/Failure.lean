import ApiProfile.Files.Path
/-!
# Failures

Every way in which a profile can fail, with its message. Findings that let a profile go on are
diagnostics instead. A failure may carry a place: a line (`atLine`) and a file (`inFile`), and the
file is named once, by `Failure.inFileOnce`.
-/

namespace ApiProfile

/-- What made a profile fail. -/
inductive Failure
  | documentNotFound (path : Path)
  | missingAttribute (element name : String)
  | missingElement (parent element : String)
  | unknownFeatureElement (element : String)
  | invalidConstantValue (name value : String)
  | invalidVersion (text : String)
  | duplicateCommand (name : String)
  | duplicateGroup (name : String)
  | emptyType (text : String)
  | malformedRow (line columns : Nat)
  | duplicateRow (name : String) (line firstLine : Nat)
  | unmappedTypes (types : List String)
  | malformedDocument (message : String)
  | atLine (line : Nat) (cause : Failure)
  | inFile (path : Path) (cause : Failure)
  | unreadable
  | badMarkup
  | badAttribute
  | badEncoding
  | badJson
  | badConfiguration
  deriving DecidableEq, Repr, Inhabited

namespace Failure

def message : Failure → String
  | documentNotFound path => "Registry document not found: " ++ path.text
  | missingAttribute element name =>
    "<" ++ element ++ "> is missing required attribute '" ++ name ++ "'"
  | missingElement parent element =>
    "<" ++ parent ++ "> is missing required element <" ++ element ++ ">"
  | unknownFeatureElement element => "Unrecognized feature element <" ++ element ++ ">"
  | invalidConstantValue name value => "Invalid value '" ++ value ++ "' for enum constant " ++ name
  | invalidVersion text => "Invalid feature version: " ++ text
  | duplicateCommand name => "Command " ++ name ++ " is declared more than once"
  | duplicateGroup name => "Group " ++ name ++ " is declared more than once"
  | emptyType text => "Type signature '" ++ text ++ "' has no base type"
  | malformedRow line columns =>
    "Line " ++ line.repr ++ ": typemap row has " ++ columns.repr ++ " columns, expected 2"
  | duplicateRow name line firstLine =>
    "Line " ++ line.repr ++ ": duplicate typemap entry for '" ++ name ++ "' (first defined on line "
      ++ firstLine.repr ++ ")"
  | unmappedTypes types =>
    "Unable to map " ++ types.length.repr ++ " type(s) to low-level types: "
      ++ String.intercalate ", " types
  | malformedDocument text => "Malformed XML document: " ++ text
  | atLine line cause => "Line " ++ line.repr ++ ": " ++ cause.message
  | inFile path cause => path.text ++ ": " ++ cause.message
  | unreadable => "IO error"
  | badMarkup => "XML error"
  | badAttribute => "XML attribute error"
  | badEncoding => "UTF-8 error"
  | badJson => "JSON error"
  | badConfiguration => "Configuration error"

/-- Names the file that a failure arose in, unless the failure names a file already. -/
def inFileOnce (path : Path) : Failure → Failure
  | inFile labelled cause => inFile labelled cause
  | documentNotFound missing => documentNotFound missing
  | cause => inFile path cause

end Failure
end ApiProfile
