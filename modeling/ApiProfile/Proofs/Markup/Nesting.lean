import ApiProfile.Proofs.Markup.Events
/-!
# Trees and events

A builder that takes in tokens holds the events of them, as the element at the top and the open ones. So a document is
read exactly if all its tokens are in order and its outline is that of one element, which then has the events of the
document; and a document whose tokens are in order is refused for what is wrong with its outline. The names of the
open elements of a builder are those that the tags before leave open, so no tag ever closes an element that is not there.
-/

namespace ApiProfile.Markup

/-- The events of an element so far. -/
def OpenElement.events (e : OpenElement) : List Event :=
  .start e.name e.attributes :: eventsOfNodes e.newest.reverse

theorem OpenElement.events_close (e : OpenElement) : e.close.events = e.events ++ [.stop e.name] := rfl

namespace Builder

def outline (b : Builder) : Outline :=
  ⟨b.pending.map (·.name), (b.root.map (·.name)).toList⟩

/-- What the element at the top and the open elements hold. -/
def events (b : Builder) : List Event :=
  (b.root.map (·.events)).getD [] ++ b.pending.reverse.flatMap (·.events)

theorem outline_pending_eq_nil {b : Builder} : b.outline.pending = [] ↔ b.pending = [] :=
  List.map_eq_nil_iff

theorem events_cons (inner : OpenElement) (outer : List OpenElement) (root : Option Element) :
    events ⟨inner :: outer, root⟩ = events ⟨outer, root⟩ ++ inner.events := by
  simp [events]

/-! ## One token -/

theorem push_of_pending {b : Builder} (h : b.pending ≠ []) (node : Node) :
    (b.push node).events = b.events ++ node.events ∧ (b.push node).outline = b.outline := by
  obtain ⟨pending, root⟩ := b
  cases pending with
  | nil => contradiction
  | cons inner outer =>
    refine ⟨?_, rfl⟩
    have hinner : ({ inner with newest := node :: inner.newest } : OpenElement).events = inner.events ++ node.events := by
      unfold OpenElement.events
      dsimp only
      rw [List.reverse_cons, eventsOfNodes_append, List.cons_append]
      simp [eventsOfNodes]
    unfold push
    dsimp only
    rw [events_cons, events_cons, hinner, List.append_assoc]

/-- What may come of a token, or of an element that is complete: the builder takes in the events, or a second element is
complete at the top, or the token is not in order. -/
inductive Outcome (b : Builder) : Option (List Event) → Except Failure Builder → Prop
  | taken {found : List Event} {next : Builder} (hevents : next.events = b.events ++ found)
    (houtline : next.outline = b.outline.takeAll found) : Outcome b (some found) (.ok next)
  | second {found : List Event} {root name : String} (h : (b.outline.takeAll found).completed = [root, name]) :
    Outcome b (some found) (.error (.malformedDocument ("second root element <" ++ name ++ ">")))
  | refused {fault : Failure} (h : fault = .badAttribute ∨ fault = .badMarkup) : Outcome b none (.error fault)

/-- Nothing is said, and nothing changes. -/
theorem Outcome.same (b : Builder) : b.Outcome (some []) (.ok b) :=
  .taken (List.append_nil _).symm rfl

theorem outcome_push {b : Builder} (h : b.pending ≠ []) (content : String) :
    b.Outcome (some [.text content]) (.ok (b.push (.text content))) := by
  obtain ⟨hevents, houtline⟩ := push_of_pending h (.text content)
  exact .taken hevents houtline

/-- A complete element finds its place, unless it is a second one at the top. The events of it that the builder does not
have yet lead to the outline with the element in it. -/
theorem outcome_complete {b outer : Builder} {e : Element} {found : List Event}
    (hevents : outer.events ++ e.events = b.events ++ found)
    (houtline : b.outline.takeAll found = outer.outline.complete e.name) :
    b.Outcome (some found) (outer.complete e) := by
  obtain ⟨pending, root⟩ := outer
  cases pending with
  | cons inner pending =>
    obtain ⟨hpush, hsame⟩ := push_of_pending (b := ⟨inner :: pending, root⟩) nofun e.toNode
    refine .taken (hpush.trans hevents) ?_
    rw [hsame, houtline]
    rfl
  | nil =>
    cases root with
    | none =>
      refine .taken ?_ houtline.symm
      rw [← hevents]
      simp [events]
    | some root => exact .second (congrArg Outline.completed houtline)

/-- A tag opens an element with the name and the attributes that it says, or is not in order. -/
theorem opened_cases (content : List Char) :
    (∃ e, opened content = .ok e ∧ startOf? content = some (e.name, e.attributes) ∧
      e.events = [.start e.name e.attributes]) ∨
    ∃ fault, opened content = .error fault ∧ startOf? content = none ∧
      (fault = .badAttribute ∨ fault = .badMarkup) := by
  cases hopened : opened content with
  | ok e =>
    obtain ⟨hstart, hnewest⟩ := opened_eq_ok.1 hopened
    refine .inl ⟨e, rfl, hstart, ?_⟩
    rw [OpenElement.events, hnewest]
    rfl
  | error fault =>
    refine .inr ⟨fault, rfl, ?_, fault_of_opened hopened⟩
    rw [Option.eq_none_iff_forall_ne_some]
    rintro ⟨name, attributes⟩ hstart
    have hok : opened content = .ok ⟨name, attributes, []⟩ := opened_eq_ok.2 ⟨hstart, rfl⟩
    cases hopened.symm.trans hok

/-- The step: a token in order adds its events, unless it completes a second element at the top. -/
theorem outcome_step (b : Builder) (token : Token) : b.Outcome (token.events? b.outline) (b.step token) := by
  cases token with
  | aside => exact .same b
  | text raw =>
    unfold step Token.events?
    dsimp only
    by_cases hpending : b.pending = []
    · rw [if_pos (outline_pending_eq_nil.2 hpending), hpending]
      exact .same b
    · rw [if_neg (mt outline_pending_eq_nil.1 hpending), List.isEmpty_eq_false_iff.2 hpending]
      cases unescape raw with
      | none => exact .refused (.inr rfl)
      | some content => exact outcome_push hpending (String.ofList content)
  | cdata content =>
    unfold step Token.events?
    dsimp only
    by_cases hpending : b.pending = []
    · have hpush : b.push (.text (String.ofList content)) = b := by
        unfold push
        rw [hpending]
      rw [if_pos (outline_pending_eq_nil.2 hpending), hpush]
      exact .same b
    · rw [if_neg (mt outline_pending_eq_nil.1 hpending)]
      exact outcome_push hpending (String.ofList content)
  | openTag content =>
    unfold step Token.events?
    dsimp only
    rcases opened_cases content with ⟨e, hopened, hstart, hevents⟩ | ⟨fault, hopened, hstart, hfault⟩
    · rw [hopened, hstart]
      refine .taken ?_ rfl
      rw [events_cons, hevents]
    · rw [hopened, hstart]
      exact .refused hfault
  | emptyTag content =>
    unfold step Token.events?
    dsimp only
    rcases opened_cases content with ⟨e, hopened, hstart, hevents⟩ | ⟨fault, hopened, hstart, hfault⟩
    · rw [hopened, hstart]
      refine outcome_complete ?_ rfl
      rw [OpenElement.events_close, hevents]
      rfl
    · rw [hopened, hstart]
      exact .refused hfault
  | closeTag content =>
    obtain ⟨pending, root⟩ := b
    unfold step Token.events?
    dsimp only
    cases pending with
    | nil => exact .refused (.inr rfl)
    | cons inner outer =>
      have hhead : (outline ⟨inner :: outer, root⟩).pending.head? = some inner.name := rfl
      rw [hhead]
      dsimp only
      by_cases hname : inner.name = String.ofList content
      · rw [if_pos (congrArg some hname), if_pos hname, ← hname]
        refine outcome_complete ?_ rfl
        rw [events_cons, OpenElement.events_close, List.append_assoc]
      · rw [if_neg (mt Option.some.inj hname), if_neg hname]
        exact .refused (.inr rfl)

/-! ## All tokens -/

/-- The run: the builder takes in the events of all tokens, or a second element is complete at the top before a token is
found not to be in order, or one is found so. -/
theorem run_cases (b : Builder) (tokens : List (Token × List Char)) :
    (∃ events next, eventsOf? b.outline tokens = some events ∧ b.run tokens = .ok next ∧
      next.events = b.events ++ events ∧ next.outline = b.outline.takeAll events) ∨
    (∃ root name rest, b.run tokens = .error (.malformedDocument ("second root element <" ++ name ++ ">"), rest) ∧
      ∀ events, eventsOf? b.outline tokens = some events → [root, name] <+: (b.outline.takeAll events).completed) ∨
    ∃ fault rest, eventsOf? b.outline tokens = none ∧ b.run tokens = .error (fault, rest) ∧
      (fault = .badAttribute ∨ fault = .badMarkup) := by
  induction tokens generalizing b with
  | nil => exact .inl ⟨[], b, rfl, rfl, (List.append_nil _).symm, rfl⟩
  | cons token more ih =>
    obtain ⟨token, rest⟩ := token
    have hstep := b.outcome_step token
    rw [run]
    generalize hfound : token.events? b.outline = found at hstep
    generalize hnext : b.step token = result at hstep
    cases hstep with
    | @taken found next hevents houtline =>
      -- what comes of the other tokens is what comes of all, with the events of this one in front
      rcases ih next with ⟨later, last, hlater, hrun, hlast, houtline'⟩ | ⟨root, name, rest', hrun, hsecond⟩ |
        ⟨fault, rest', hnone, hrun, hfault⟩
      · refine .inl ⟨found ++ later, last, ?_, hrun, ?_, ?_⟩
        · exact eventsOf?_cons.2 ⟨found, later, hfound, houtline ▸ hlater, rfl⟩
        · rw [hlast, hevents, List.append_assoc]
        · rw [houtline', houtline, Outline.takeAll_append]
      · refine .inr (.inl ⟨root, name, rest', hrun, ?_⟩)
        intro events h
        obtain ⟨found', later, hfound', hlater, rfl⟩ := eventsOf?_cons.1 h
        cases hfound.symm.trans hfound'
        rw [Outline.takeAll_append, ← houtline]
        exact hsecond later (houtline ▸ hlater)
      · refine .inr (.inr ⟨fault, rest', ?_, hrun, hfault⟩)
        rw [Option.eq_none_iff_forall_ne_some]
        intro events h
        obtain ⟨found', later, hfound', hlater, -⟩ := eventsOf?_cons.1 h
        cases hfound.symm.trans hfound'
        rw [← houtline, hnone] at hlater
        cases hlater
    | @second found root name hcompleted =>
      -- the other tokens are not looked at, but whatever they say, the second element stays the second one
      refine .inr (.inl ⟨root, name, rest, rfl, ?_⟩)
      intro events h
      obtain ⟨found', later, hfound', -, rfl⟩ := eventsOf?_cons.1 h
      cases hfound.symm.trans hfound'
      rw [Outline.takeAll_append, ← hcompleted]
      exact Outline.completed_prefix_takeAll _ later
    | @refused fault hfault =>
      refine .inr (.inr ⟨fault, rest, ?_, rfl, hfault⟩)
      rw [Option.eq_none_iff_forall_ne_some]
      intro events h
      obtain ⟨found', -, hfound', -⟩ := eventsOf?_cons.1 h
      cases hfound.symm.trans hfound'

/-- At the end of the text the outline decides. -/
theorem finish_cases (b : Builder) :
    (∃ e, b.finish = .ok e ∧ b.events = e.events ∧ b.outline = ⟨[], [e.name]⟩) ∨
    ∃ message, b.finish = .error (.malformedDocument message) ∧ b.outline.fault? = some message := by
  obtain ⟨pending, root⟩ := b
  cases pending with
  | cons inner outer => exact .inr ⟨_, rfl, by cases root <;> rfl⟩
  | nil =>
    cases root with
    | none => exact .inr ⟨_, rfl, rfl⟩
    | some e => exact .inl ⟨e, rfl, by simp [events], rfl⟩

end Builder

theorem Outline.fault?_of_prefix {o : Outline} {root name : String} (h : [root, name] <+: o.completed) :
    o.fault? = some ("second root element <" ++ name ++ ">") := by
  obtain ⟨later, hlater⟩ := h
  unfold fault?
  rw [← hlater]
  rfl

/-- What is wrong with an outline is not that an element is closed that is not open. -/
theorem Outline.fault?_ne_closing (o : Outline) : o.fault? ≠ some "closing tag without opening tag" := by
  -- the first letters differ
  have hhead : ∀ (first : Char) (rest : List Char) (name tail : String), first ≠ 'c' →
      String.ofList (first :: rest) ++ name ++ tail ≠ "closing tag without opening tag" := by
    intro first rest name tail hfirst h
    have hlist := congrArg (fun text => text.toList.head?) h
    simp at hlist
    exact hfirst hlist
  obtain ⟨pending, completed⟩ := o
  match completed, pending with
  | _ :: _ :: _, _ => exact fun h => hhead 's' _ _ _ (by decide) (Option.some.inj h)
  | [_], _ :: _ | [], _ :: _ => exact fun h => hhead 'e' _ _ _ (by decide) (Option.some.inj h)
  | [], [] => exact fun h => absurd (Option.some.inj h) (by decide)
  | [_], [] => exact nofun

/-! ## Documents -/

theorem Element.ofDocument_cases (document : String) :
    (∃ e, ofDocument document = .ok e ∧ events? document = some e.events ∧
      Outline.start.takeAll e.events = ⟨[], [e.name]⟩) ∨
    (∃ (o : Outline) (line : Nat) (message : String), o.fault? = some message ∧
      ofDocument document = .error (.atLine line (.malformedDocument message)) ∧
      ∀ events, events? document = some events → (Outline.start.takeAll events).fault? = some message) ∨
    ∃ line fault, ofDocument document = .error (.atLine line fault) ∧ events? document = none ∧
      (fault = .badAttribute ∨ fault = .badMarkup) := by
  unfold ofDocument ofTokens events?
  dsimp only
  generalize tokens (Text.dropByteOrderMark document.toList) = found
  rcases Builder.start.run_cases found.list with ⟨events, next, hevents, hrun, hnext, houtline⟩ |
    ⟨root, name, rest, hrun, hsecond⟩ | ⟨fault, rest, hnone, hrun, hfault⟩
  · rw [hrun]
    dsimp only
    cases hbroken : found.broken with
    | some rest => exact .inr (.inr ⟨_, _, rfl, if_neg nofun, .inr rfl⟩)
    | none =>
      rcases next.finish_cases with ⟨e, hfinish, heq, hwhole⟩ | ⟨message, hfinish, hwrong⟩
      · have hsame : e.events = events := heq.symm.trans hnext
        rw [hfinish, if_pos rfl]
        refine .inl ⟨e, rfl, hsame ▸ hevents, ?_⟩
        rw [hsame, ← hwhole]
        exact houtline.symm
      · rw [hfinish, if_pos rfl]
        refine .inr (.inl ⟨next.outline, _, message, hwrong, rfl, ?_⟩)
        intro others h
        cases hevents.symm.trans h
        rw [← hwrong]
        exact congrArg Outline.fault? houtline.symm
  · rw [hrun]
    refine .inr (.inl ⟨⟨[], [root, name]⟩, _, _, rfl, rfl, ?_⟩)
    intro events h
    split at h
    · exact Outline.fault?_of_prefix (hsecond events h)
    · cases h
  · rw [hrun]
    refine .inr (.inr ⟨_, fault, rfl, ?_, hfault⟩)
    split
    · exact hnone
    · rfl

/-- The tree of a document has its events. -/
theorem Element.events_of_ofDocument {document : String} {e : Element} (h : ofDocument document = .ok e) :
    events? document = some e.events ∧ Outline.start.takeAll e.events = ⟨[], [e.name]⟩ := by
  rcases ofDocument_cases document with ⟨e', he', hevents, houtline⟩ | ⟨o, line, message, -, hfault, -⟩ |
    ⟨line, fault, hfault, -, -⟩
  · cases h.symm.trans he'
    exact ⟨hevents, houtline⟩
  · cases hfault.symm.trans h
  · cases hfault.symm.trans h

/-! ## The reader's own names -/

/-- The names that are open behind a tag; a closing tag must name the innermost one. -/
def Token.namesAfter (names : List String) : Token → Except Failure (List String)
  | .openTag content => .ok (String.ofList (splitName content).1 :: names)
  | .closeTag content =>
    match names with
    | [] => .error .badMarkup
    | inner :: outer => if inner = String.ofList content then .ok outer else .error .badMarkup
  | _ => .ok names

namespace Builder

/-- The step of a builder that does not look at names: a closing tag closes the innermost open element, and one must be
open. -/
def stepUnchecked (b : Builder) : Token → Except Failure Builder
  | .closeTag _ =>
    match b.pending with
    | [] => .error (.malformedDocument "closing tag without opening tag")
    | inner :: outer => { b with pending := outer }.complete inner.close
  | token => b.step token

/-- Takes in tokens that were checked against the names of the reader. -/
def runChecked (names : List String) (b : Builder) : List (Token × List Char) → Except (Failure × List Char) Builder
  | [] => .ok b
  | (token, rest) :: more =>
    match token.namesAfter names with
    | .error fault => .error (fault, rest)
    | .ok next =>
      match b.stepUnchecked token with
      | .error fault => .error (fault, rest)
      | .ok b => b.runChecked next more

theorem names_push (b : Builder) (node : Node) : (b.push node).pending.map (·.name) = b.pending.map (·.name) := by
  unfold push
  split
  · rfl
  · rename_i inner outer hpending
    rw [hpending]
    rfl

theorem names_complete {b next : Builder} {e : Element} (h : b.complete e = .ok next) :
    next.pending.map (·.name) = b.pending.map (·.name) := by
  unfold complete at h
  split at h
  · cases h
    exact b.names_push e.toNode
  · cases h
    rfl
  · cases h

theorem name_of_opened {content : List Char} {e : OpenElement} (h : opened content = .ok e) :
    e.name = String.ofList (splitName content).1 := by
  unfold opened at h
  split at h <;> cases h
  rfl

/-- The names that the reader has are those of the builder's open elements, before a token and behind it. -/
theorem step_checked (b : Builder) (token : Token) :
    (∃ fault, token.namesAfter (b.pending.map (·.name)) = .error fault ∧ b.step token = .error fault) ∨
    ∃ names, token.namesAfter (b.pending.map (·.name)) = .ok names ∧ b.step token = b.stepUnchecked token ∧
      ∀ next, b.step token = .ok next → next.pending.map (·.name) = names := by
  cases token with
  | aside =>
    refine .inr ⟨_, rfl, rfl, fun next h => ?_⟩
    cases h
    rfl
  | text raw =>
    refine .inr ⟨_, rfl, rfl, fun next h => ?_⟩
    unfold step at h
    dsimp only at h
    split at h
    · cases h
      rfl
    · split at h <;> cases h
      exact b.names_push _
  | cdata content =>
    refine .inr ⟨_, rfl, rfl, fun next h => ?_⟩
    cases h
    exact b.names_push _
  | openTag content =>
    refine .inr ⟨_, rfl, rfl, fun next h => ?_⟩
    unfold step at h
    dsimp only at h
    split at h <;> cases h
    rename_i e he
    rw [← name_of_opened he]
    rfl
  | emptyTag content =>
    refine .inr ⟨_, rfl, rfl, fun next h => ?_⟩
    unfold step at h
    dsimp only at h
    split at h
    · exact names_complete h
    · cases h
  | closeTag content =>
    obtain ⟨pending, root⟩ := b
    cases pending with
    | nil => exact .inl ⟨_, rfl, rfl⟩
    | cons inner outer =>
      unfold Token.namesAfter step stepUnchecked
      dsimp only
      rw [List.map_cons]
      dsimp only
      by_cases hname : inner.name = String.ofList content
      · rw [if_pos hname, if_pos hname]
        exact .inr ⟨_, rfl, rfl, fun next h => names_complete h⟩
      · rw [if_neg hname, if_neg hname]
        exact .inl ⟨_, rfl, rfl⟩

/-- A builder that leaves the check of names to the reader does the same. -/
theorem runChecked_eq (b : Builder) (tokens : List (Token × List Char)) :
    b.runChecked (b.pending.map (·.name)) tokens = b.run tokens := by
  induction tokens generalizing b with
  | nil => rfl
  | cons token more ih =>
    obtain ⟨token, rest⟩ := token
    rw [runChecked, run]
    rcases b.step_checked token with ⟨fault, hnames, hstep⟩ | ⟨names, hnames, hstep, hnext⟩
    · rw [hnames, hstep]
    · rw [hnames, ← hstep]
      dsimp only
      cases hresult : b.step token with
      | error fault => rfl
      | ok next =>
        rw [← hnext next hresult]
        exact ih next

end Builder

/-! ## Reading a document -/

/-- A document is read exactly if its events are in order and make one element at the top. The tree has the events of
the document, and no element two attributes of the same key. A document whose events are in order is refused for what is
wrong with its outline. And a tag that closes no element is the reader's fault to find: the builder would find none. -/
theorem Element.ofDocument_events (document : String) :
    ((∃ e, ofDocument document = .ok e) ↔
      ∃ events name, events? document = some events ∧ Outline.start.takeAll events = ⟨[], [name]⟩) ∧
    (∀ e, ofDocument document = .ok e → events? document = some e.events ∧ ∀ event ∈ e.events, event.Distinct) ∧
    (∀ events message, events? document = some events → (Outline.start.takeAll events).fault? = some message →
      ∃ line, ofDocument document = .error (.atLine line (.malformedDocument message))) ∧
    (∀ found, Builder.start.runChecked [] found = Builder.start.run found) ∧
    ∀ line, ofDocument document ≠ .error (.atLine line (.malformedDocument "closing tag without opening tag")) := by
  have hcases := ofDocument_cases document
  refine ⟨⟨?_, ?_⟩, ?_, ?_, Builder.start.runChecked_eq, ?_⟩
  · rintro ⟨e, he⟩
    exact ⟨e.events, e.name, events_of_ofDocument he⟩
  · rintro ⟨events, name, hevents, houtline⟩
    rcases hcases with ⟨e, he, -, -⟩ | ⟨o, line, message, -, -, hwrong⟩ | ⟨line, fault, -, hnone, -⟩
    · exact ⟨e, he⟩
    · have hfault := hwrong events hevents
      rw [houtline] at hfault
      cases hfault
    · rw [hnone] at hevents
      cases hevents
  · intro e he
    obtain ⟨hevents, -⟩ := events_of_ofDocument he
    exact ⟨hevents, distinct_of_events? hevents⟩
  · intro events message hevents hmessage
    rcases hcases with ⟨e, -, hevents', houtline⟩ | ⟨o, line, other, -, hfault, hwrong⟩ | ⟨line, fault, -, hnone, -⟩
    · cases hevents.symm.trans hevents'
      rw [houtline] at hmessage
      cases hmessage
    · cases hmessage.symm.trans (hwrong events hevents)
      exact ⟨line, hfault⟩
    · rw [hnone] at hevents
      cases hevents
  · intro line h
    rcases hcases with ⟨e, he, -, -⟩ | ⟨o, line', message, hmessage, hfault, -⟩ | ⟨line', fault, hfault, -, hplain⟩
    · rw [he] at h
      cases h
    · cases hfault.symm.trans h
      exact o.fault?_ne_closing hmessage
    · cases hfault.symm.trans h
      rcases hplain with hplain | hplain <;> cases hplain

theorem Element.ofDocument_events_faults :
    (∃ e, ofDocument "<a k = 'v' l=\"&lt;2'\"m=''>x<b k='w'/></a>" = .ok e ∧
      e.events = [.start "a" [("k", "v"), ("l", "<2'"), ("m", "")], .text "x", .start "b" [("k", "w")], .stop "b",
        .stop "a"]) ∧
    (∀ e, ofDocument "<a k='v' l='2' k='v'/>" ≠ .ok e) ∧
    (∃ line, ofDocument "<a/><b/><c>" = .error (.atLine line (.malformedDocument "second root element <b>"))) ∧
    (∃ line, ofDocument "<a/><b><c>" = .error (.atLine line (.malformedDocument "element <c> is never closed"))) ∧
    ∃ line, ofDocument "x" = .error (.atLine line (.malformedDocument "document has no root element")) := by
  have hread : events? "<a k = 'v' l=\"&lt;2'\"m=''>x<b k='w'/></a>" =
      some [.start "a" [("k", "v"), ("l", "<2'"), ("m", "")], .text "x", .start "b" [("k", "w")], .stop "b",
        .stop "a"] := by
    decide +kernel
  obtain ⟨e, he⟩ := (ofDocument_events "<a k = 'v' l=\"&lt;2'\"m=''>x<b k='w'/></a>").1.2 ⟨_, "a", hread, rfl⟩
  obtain ⟨hevents, -⟩ := (ofDocument_events "<a k = 'v' l=\"&lt;2'\"m=''>x<b k='w'/></a>").2.1 e he
  refine ⟨⟨e, he, Option.some.inj (hevents.symm.trans hread)⟩, ?_, ?_, ?_, ?_⟩
  · intro e he
    obtain ⟨events, name, hnone, -⟩ := (ofDocument_events "<a k='v' l='2' k='v'/>").1.1 ⟨e, he⟩
    have htwice : events? "<a k='v' l='2' k='v'/>" = none := by decide +kernel
    cases htwice.symm.trans hnone
  · exact (ofDocument_events "<a/><b/><c>").2.2.1
      [.start "a" [], .stop "a", .start "b" [], .stop "b", .start "c" []] _ (by decide +kernel) rfl
  · exact (ofDocument_events "<a/><b><c>").2.2.1
      [.start "a" [], .stop "a", .start "b" [], .start "c" []] _ (by decide +kernel) rfl
  · exact (ofDocument_events "x").2.2.1 [] _ (by decide +kernel) rfl

end ApiProfile.Markup
