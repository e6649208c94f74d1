import ApiProfile.Markup.Document
import ApiProfile.Proofs.Fallible
import Mathlib.Data.List.TakeWhile
/-!
# What a tag says

The attributes of a tag, said in three parts that come one after the other: how they are written, what their values
stand for, and that no two have one key. The reader does all three in one pass, attribute by attribute, and with the keys
it has seen. A tag opens an element exactly if it says something, and the element has the name and the attributes that
it says.
-/

namespace ApiProfile.Markup

/-! ## Attributes as they are written -/

/-- The attribute that a text starts with, as it is written: its key, its value between the quotes, and the text behind
it. A key takes its first character whatever that is. -/
def firstAttribute? : List Char → Option (List Char × List Char × List Char)
  | [] => none
  | c :: cs =>
    let ends := fun d => d = '=' || isSpace d
    match (cs.dropWhile (!ends ·)).dropWhile isSpace with
    | '=' :: behind =>
      match behind.dropWhile isSpace with
      | [] => none
      | quote :: body =>
        if quote ∈ ['\'', '"'] ∧ quote ∈ body then
          some (c :: cs.takeWhile (!ends ·), body.takeWhile (· ≠ quote), (body.dropWhile (· ≠ quote)).tail)
        else none
    | _ => none

theorem firstAttribute?_cons (c : Char) (cs : List Char) :
    firstAttribute? (c :: cs) = (rawAttribute? [] c cs).map fun raw => (raw.key, raw.value, raw.rest) := by
  unfold firstAttribute? rawAttribute?
  simp only [List.not_mem_nil, if_false]
  cases (cs.dropWhile fun d => !(d = '=' || isSpace d)).dropWhile isSpace with
  | nil => rfl
  | cons d behind =>
    by_cases hd : d = '='
    · subst hd
      simp only [Option.map_map]
      unfold quoted?
      cases behind.dropWhile isSpace with
      | nil => rfl
      | cons quote body =>
        have hclosing : quote ∈ body ↔ body.dropWhile (· ≠ quote) ≠ [] := by
          rw [Ne, List.dropWhile_eq_nil_iff]
          simp
        simp only [hclosing, List.mem_pair]
        by_cases hquote : quote = '\'' ∨ quote = '"'
        · cases body.dropWhile (· ≠ quote) <;> simp [hquote]
        · simp [hquote]
    · simp [hd]

/-- The keys and values of all attributes, as they are written and in order. -/
def rawAttributes? (cs : List Char) : Option (List (List Char × List Char)) :=
  match hcs : cs.dropWhile isSpace with
  | [] => some []
  | c :: rest =>
    match hfirst : firstAttribute? (c :: rest) with
    | none => none
    | some (key, value, behind) =>
      have : behind.length < cs.length := by
        rw [firstAttribute?_cons] at hfirst
        obtain ⟨raw, hraw, heq⟩ := Option.map_eq_some_iff.1 hfirst
        have hlt := length_lt_of_rawAttribute? hraw
        have hle := (List.dropWhile_sublist isSpace (l := cs)).length_le
        cases heq
        rw [hcs, List.length_cons] at hle
        omega
      (rawAttributes? behind).map ((key, value) :: ·)
  termination_by cs.length

theorem rawAttributes?_of_blank {cs : List Char} (h : cs.dropWhile isSpace = []) : rawAttributes? cs = some [] := by
  rw [rawAttributes?]
  split
  · rfl
  · rename_i hcs
    rw [h] at hcs
    cases hcs

theorem rawAttributes?_of_cons {c : Char} {cs rest : List Char} (h : cs.dropWhile isSpace = c :: rest) :
    rawAttributes? cs = (firstAttribute? (c :: rest)).bind fun (key, value, behind) =>
      (rawAttributes? behind).map ((key, value) :: ·) := by
  rw [rawAttributes?]
  split
  · rename_i hcs
    rw [h] at hcs
    cases hcs
  · rename_i hcs
    cases h.symm.trans hcs
    split
    · rename_i hfirst
      rw [hfirst, Option.bind_none]
    · rename_i hfirst
      simp only [hfirst, Option.bind_some]

/-! ## Attributes and what they stand for -/

/-- An attribute with the characters that its value stands for. -/
def readAttribute? (raw : List Char × List Char) : Option (String × String) :=
  (unescape raw.2).map fun value => (String.ofList raw.1, String.ofList value)

/-- All attributes in order, if they are written as such and their values stand for characters. -/
def attributesOf? (cs : List Char) : Option (List (String × String)) :=
  (rawAttributes? cs).bind fun raw => raw.mapM readAttribute?

theorem attributesOf?_of_blank {cs : List Char} (h : cs.dropWhile isSpace = []) : attributesOf? cs = some [] := by
  rw [attributesOf?, rawAttributes?_of_blank h]
  rfl

theorem attributesOf?_of_cons {c : Char} {cs rest : List Char} (h : cs.dropWhile isSpace = c :: rest)
    {found : List (String × String)} :
    attributesOf? cs = some found ↔ ∃ key value behind, firstAttribute? (c :: rest) = some (key, value, behind) ∧
      ∃ a more, readAttribute? (key, value) = some a ∧ attributesOf? behind = some more ∧ found = a :: more := by
  unfold attributesOf?
  rw [rawAttributes?_of_cons h]
  constructor
  · intro h
    obtain ⟨raw, hraw, h⟩ := Option.bind_eq_some_iff.1 h
    obtain ⟨⟨key, value, behind⟩, hfirst, hraw⟩ := Option.bind_eq_some_iff.1 hraw
    obtain ⟨later, hlater, rfl⟩ := Option.map_eq_some_iff.1 hraw
    obtain ⟨a, more, ha, hmore, rfl⟩ := List.forall₂_cons_left_iff.1 (mapM_eq_some.1 h)
    have hbehind := Option.bind_eq_some_iff.2 ⟨later, hlater, mapM_eq_some.2 hmore⟩
    exact ⟨key, value, behind, hfirst, a, more, ha, hbehind, rfl⟩
  · rintro ⟨key, value, behind, hfirst, a, more, ha, hmore, rfl⟩
    obtain ⟨later, hlater, hmore⟩ := Option.bind_eq_some_iff.1 hmore
    rw [hfirst]
    refine Option.bind_eq_some_iff.2 ⟨(key, value) :: later, Option.map_eq_some_iff.2 ⟨later, hlater, rfl⟩, ?_⟩
    exact mapM_eq_some.2 (.cons ha (mapM_eq_some.1 hmore))

/-- What a tag says: its name, which runs to the first blank, and its attributes, if they can be read and no two have
one key. -/
def startOf? (content : List Char) : Option (String × List (String × String)) := do
  let attributes ← attributesOf? (content.dropWhile (!isSpace ·))
  if (attributes.map (·.1)).Nodup then some (String.ofList (content.takeWhile (!isSpace ·)), attributes) else none

theorem nodup_of_startOf? {content : List Char} {name : String} {attributes : List (String × String)}
    (h : startOf? content = some (name, attributes)) : (attributes.map (·.1)).Nodup := by
  obtain ⟨found, -, h⟩ := Option.bind_eq_some_iff.1 h
  split at h <;> cases h
  assumption

/-! ## The reader -/

/-- Keys read before only lead to attributes that are left out. -/
theorem rawAttribute?_eq_some {seen : List String} {c : Char} {cs : List Char} {found : RawAttribute} :
    rawAttribute? seen c cs = some found ↔
      firstAttribute? (c :: cs) = some (found.key, found.value, found.rest) ∧ String.ofList found.key ∉ seen := by
  have hraw : firstAttribute? (c :: cs) = some (found.key, found.value, found.rest) ↔
      rawAttribute? [] c cs = some found := by
    rw [firstAttribute?_cons, Option.map_eq_some_iff]
    constructor
    · rintro ⟨raw, hraw, heq⟩
      cases raw
      cases heq
      exact hraw
    · intro h
      exact ⟨found, h, rfl⟩
  rw [hraw]
  unfold rawAttribute?
  simp only [List.not_mem_nil, if_false]
  cases (cs.dropWhile fun d => !(d = '=' || isSpace d)).dropWhile isSpace with
  | nil => simp
  | cons d behind =>
    by_cases hd : d = '='
    · subst hd
      by_cases hseen : String.ofList (c :: cs.takeWhile fun d => !(d = '=' || isSpace d)) ∈ seen
      · simp only [hseen, if_true]
        refine iff_of_false nofun ?_
        rintro ⟨h, hnew⟩
        obtain ⟨_, -, rfl⟩ := Option.map_eq_some_iff.1 h
        exact hnew hseen
      · simp only [hseen, if_false]
        refine ⟨fun h => ⟨h, ?_⟩, And.left⟩
        obtain ⟨_, -, rfl⟩ := Option.map_eq_some_iff.1 h
        exact hseen
    · simp [hd]

/-- Where an attribute is read first, the attributes are that one, with its value unescaped, and those behind it. -/
theorem attributesOf?_of_rawAttribute? {seen : List String} {c : Char} {cs rest : List Char} {raw : RawAttribute}
    (hcs : cs.dropWhile isSpace = c :: rest) (hraw : rawAttribute? seen c rest = some raw)
    {found : List (String × String)} :
    attributesOf? cs = some found ↔ ∃ value more, unescape raw.value = some value ∧
      attributesOf? raw.rest = some more ∧ found = (String.ofList raw.key, String.ofList value) :: more := by
  obtain ⟨hfirst, -⟩ := rawAttribute?_eq_some.1 hraw
  rw [attributesOf?_of_cons hcs]
  constructor
  · rintro ⟨key, value, behind, hfirst', a, more, ha, hmore, rfl⟩
    cases hfirst.symm.trans hfirst'
    obtain ⟨text, htext, rfl⟩ := Option.map_eq_some_iff.1 ha
    exact ⟨text, more, htext, hmore, rfl⟩
  · rintro ⟨text, more, htext, hmore, rfl⟩
    exact ⟨_, _, _, hfirst, _, more, Option.map_eq_some_iff.2 ⟨text, htext, rfl⟩, hmore, rfl⟩

/-- Attributes are read exactly if all are written as such, their values can be unescaped, and no key comes twice or was
read before. -/
theorem attributesAfter_eq_ok {seen : List String} {cs : List Char} {found : List (String × String)} :
    attributesAfter seen cs = .ok found ↔
      attributesOf? cs = some found ∧ (found.map (·.1)).Nodup ∧ ∀ key ∈ found.map (·.1), key ∉ seen := by
  fun_induction attributesAfter seen cs generalizing found with
  | case1 seen cs hcs =>
    rw [attributesOf?_of_blank hcs]
    constructor
    · intro h
      cases h
      exact ⟨rfl, .nil, nofun⟩
    · rintro ⟨h, -⟩
      cases h
      rfl
  -- an attribute that is refused is not written as one, or has a key that was read before
  | case2 seen cs c rest hcs hraw =>
    refine iff_of_false nofun ?_
    rintro ⟨h, -, hnew⟩
    obtain ⟨key, value, behind, hfirst, a, more, ha, -, rfl⟩ := (attributesOf?_of_cons hcs).1 h
    obtain ⟨text, -, rfl⟩ := Option.map_eq_some_iff.1 ha
    have hsome : rawAttribute? seen c rest = some ⟨key, value, behind⟩ :=
      rawAttribute?_eq_some.2 ⟨hfirst, hnew (String.ofList key) (.head _)⟩
    cases hraw.symm.trans hsome
  | case3 seen cs c rest hcs raw hraw hvalue =>
    refine iff_of_false nofun ?_
    rintro ⟨h, -⟩
    obtain ⟨value, -, hvalue', -⟩ := (attributesOf?_of_rawAttribute? hcs hraw).1 h
    cases hvalue.symm.trans hvalue'
  | case4 seen cs c rest hcs raw hraw value hvalue hlt key more hmore =>
    rename_i ih
    obtain ⟨hmore, hnodup, hapart⟩ := ih.1 hmore
    constructor
    · intro h
      cases h
      refine ⟨(attributesOf?_of_rawAttribute? hcs hraw).2 ⟨value, more, hvalue, hmore, rfl⟩, ?_, ?_⟩
      · exact List.nodup_cons.2 ⟨fun hmem => hapart key hmem (.head seen), hnodup⟩
      · have hnew := (rawAttribute?_eq_some.1 hraw).2
        exact List.forall_mem_cons.2 ⟨hnew, fun k hk hseen => hapart k hk (.tail key hseen)⟩
    · rintro ⟨h, -⟩
      obtain ⟨_, _, hvalue', hmore', rfl⟩ := (attributesOf?_of_rawAttribute? hcs hraw).1 h
      cases hvalue.symm.trans hvalue'
      cases hmore.symm.trans hmore'
      rfl
  -- if those behind are refused, then not because of a key that the whole list would have only once
  | case5 seen cs c rest hcs raw hraw value hvalue hlt key fault hfault =>
    rename_i ih
    refine iff_of_false nofun ?_
    rintro ⟨h, hnodup, hnew⟩
    obtain ⟨_, more, -, hmore, rfl⟩ := (attributesOf?_of_rawAttribute? hcs hraw).1 h
    obtain ⟨hkey, hnodup⟩ := List.nodup_cons.1 hnodup
    have hapart : ∀ k ∈ more.map (·.1), k ∉ key :: seen := by
      intro k hk hseen
      rcases List.mem_cons.1 hseen with rfl | hseen
      · exact hkey hk
      · exact hnew k (.tail _ hk) hseen
    cases hfault.symm.trans (ih.2 ⟨hmore, hnodup, hapart⟩)

theorem fault_of_attributesAfter {seen : List String} {cs : List Char} {fault : Failure}
    (h : attributesAfter seen cs = .error fault) : fault = .badAttribute ∨ fault = .badMarkup := by
  fun_induction attributesAfter seen cs with
  | case1 | case4 => cases h
  | case2 =>
    cases h
    exact .inl rfl
  | case3 =>
    cases h
    exact .inr rfl
  | case5 seen cs c rest hcs raw hraw value hvalue hlt key fault' hfault ih =>
    cases h
    exact ih hfault

theorem opened_eq_ok {content : List Char} {e : OpenElement} :
    Builder.opened content = .ok e ↔ startOf? content = some (e.name, e.attributes) ∧ e.newest = [] := by
  unfold Builder.opened startOf? attributes splitName
  dsimp only
  constructor
  · intro h
    split at h
    · rename_i found hfound
      cases h
      obtain ⟨hall, hnodup, -⟩ := attributesAfter_eq_ok.1 hfound
      rw [hall]
      exact ⟨if_pos hnodup, rfl⟩
    · cases h
  · rintro ⟨h, hnewest⟩
    obtain ⟨found, hfound, h⟩ := Option.bind_eq_some_iff.1 h
    split at h
    · rename_i hnodup
      obtain ⟨name, attributes, newest⟩ := e
      dsimp only at h hnewest
      obtain ⟨rfl, rfl⟩ := Prod.mk.inj (Option.some.inj h)
      rw [hnewest, attributesAfter_eq_ok.2 ⟨hfound, hnodup, fun _ _ => List.not_mem_nil⟩]
    · cases h

theorem fault_of_opened {content : List Char} {fault : Failure} (h : Builder.opened content = .error fault) :
    fault = .badAttribute ∨ fault = .badMarkup := by
  unfold Builder.opened at h
  split at h
  · cases h
  · rename_i fault' hfault
    cases h
    exact fault_of_attributesAfter hfault

end ApiProfile.Markup
