import ApiProfile.Failure
import ApiProfile.Markup.Reference
import ApiProfile.Markup.Token
/-!
# Names and attributes of tags

A tag starts with its name, which runs to the first blank and may be empty. Then come attributes: a
key, `=`, and a value in quotes of either kind. Blanks may stand around each of them, and none is
needed between a value and the next key.
-/

namespace ApiProfile.Markup

/-- The start of a tag's content up to the first blank, and the rest. -/
def splitName (content : List Char) : List Char × List Char :=
  (content.takeWhile (!isSpace ·), content.dropWhile (!isSpace ·))

/-- An attribute as written: key, raw value, and what follows it. -/
structure RawAttribute where
  key : List Char
  value : List Char
  rest : List Char
  deriving DecidableEq, Repr

/-- The value in quotes that a text starts with, after blanks. -/
def quoted? (cs : List Char) : Option (List Char × List Char) :=
  match cs.dropWhile isSpace with
  | [] => none
  | quote :: body =>
    if quote = '\'' ∨ quote = '"' then
      match body.dropWhile (· ≠ quote) with
      | [] => none
      | _ :: rest => some (body.takeWhile (· ≠ quote), rest)
    else none

/-- Reads an attribute from its key on, which starts with `c`. Keys in `seen` may not come again. -/
def rawAttribute? (seen : List String) (c : Char) (cs : List Char) : Option RawAttribute :=
  let endsKey := fun d => d = '=' || isSpace d
  let key := c :: cs.takeWhile (!endsKey ·)
  match (cs.dropWhile (!endsKey ·)).dropWhile isSpace with
  | '=' :: rest =>
    if String.ofList key ∈ seen then none
    else (quoted? rest).map fun (value, rest) => ⟨key, value, rest⟩
  | _ => none

theorem length_lt_of_quoted? {cs value rest : List Char} (h : quoted? cs = some (value, rest)) :
    rest.length < cs.length := by
  have hdrop := (List.dropWhile_sublist isSpace (l := cs)).length_le
  simp only [quoted?] at h
  split at h
  · cases h
  · rename_i quote body hcs
    rw [hcs] at hdrop
    split at h
    · have hbody := (List.dropWhile_sublist (· ≠ quote) (l := body)).length_le
      split at h
      · cases h
      · rename_i d after hafter
        simp only [Option.some.injEq, Prod.mk.injEq] at h
        rw [hafter, h.2] at hbody
        simp only [List.length_cons] at hdrop hbody
        omega
    · cases h

theorem length_lt_of_rawAttribute? {seen : List String} {c : Char} {cs : List Char}
    {found : RawAttribute} (h : rawAttribute? seen c cs = some found) :
    found.rest.length < cs.length := by
  simp only [rawAttribute?] at h
  split at h
  · rename_i rest heq
    have h1 := (List.dropWhile_sublist isSpace
      (l := cs.dropWhile fun d => !(d = '=' || isSpace d))).length_le
    have h2 := (List.dropWhile_sublist (fun d => !(d = '=' || isSpace d)) (l := cs)).length_le
    rw [heq, List.length_cons] at h1
    split at h
    · cases h
    · obtain ⟨⟨value, after⟩, hq, rfl⟩ := Option.map_eq_some_iff.1 h
      have := length_lt_of_quoted? hq
      simp only
      omega
  · cases h

/-- Reads attributes to the end of a tag; `seen` holds the keys read before. Values are unescaped one
by one, so the first fault in the order of writing is the one reported. -/
def attributesAfter (seen : List String) (cs : List Char) :
    Except Failure (List (String × String)) :=
  match hcs : cs.dropWhile isSpace with
  | [] => .ok []
  | c :: rest =>
    match hraw : rawAttribute? seen c rest with
    | none => .error .badAttribute
    | some raw =>
      match unescape raw.value with
      | none => .error .badMarkup
      | some value =>
        have : raw.rest.length < cs.length := by
          have h1 := length_lt_of_rawAttribute? hraw
          have h2 := (List.dropWhile_sublist isSpace (l := cs)).length_le
          rw [hcs, List.length_cons] at h2
          omega
        let key := String.ofList raw.key
        match attributesAfter (key :: seen) raw.rest with
        | .ok more => .ok ((key, String.ofList value) :: more)
        | .error fault => .error fault
  termination_by cs.length

def attributes (cs : List Char) : Except Failure (List (String × String)) :=
  attributesAfter [] cs

end ApiProfile.Markup
