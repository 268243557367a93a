/-
Markup as a sequence of events.

Text runs up to a left angle bracket; what stands behind the bracket decides what it opens:

    "</"   a closing tag         ends at a ">" outside of quotes
    "<?"   an instruction        ends at "?>"
    "<!-"  a comment             ends at "-->"
    "<!["  a CDATA section       ends at "]]>"
    "<!D"  a document type       ends at the ">" that balances the "<" inside
    "<"    an opening tag        ends at a ">" outside of quotes

A tag whose content ends with a slash is an empty element. A closing tag has to name the innermost
open element; elements that are still open at the end of the markup are no fault.

* **`Construct.split`** — cuts the content of a construct off the text behind it;
* **`events`** — the events of a markup up to its end or its first fault.
-/
import Libretto.Markup.Attribute
import Libretto.Markup.Fault

namespace Libretto.Markup

/-- A piece of markup. Text is given as it is written, with the byte at which it ends. -/
inductive Event where
  | start (tag : StartTag)
  /-- An element that closes itself. -/
  | empty (tag : StartTag)
  | close
  | text (raw : List Char) (stop : Nat)
  | cdata (text : List Char)
  /-- A comment, an instruction or a document type. -/
  | aside
  deriving DecidableEq, Repr

/-! ### Where a construct ends -/

/-- Cuts a text in front of and behind the character for which `step` gives no further state. -/
def splitWhere {σ : Type} (step : σ → Char → Option σ) (state : σ) :
    List Char → Option (List Char × List Char)
  | [] => none
  | c :: rest =>
    match step state c with
    | none => some ([], rest)
    | some state => (splitWhere step state rest).map fun parts => (c :: parts.1, parts.2)

/-- Nothing but the character in the middle is lost. -/
theorem splitWhere_eq_some {σ : Type} {step : σ → Char → Option σ} {state : σ}
    {text content rest : List Char} (h : splitWhere step state text = some (content, rest)) :
    ∃ c, text = content ++ c :: rest := by
  fun_induction splitWhere step state text generalizing content with
  | case1 => simp at h
  | case2 _ c rest => simp_all
  | case3 _ c _ _ _ ih =>
    obtain ⟨parts, found, rfl, rfl⟩ := by simpa using h
    obtain ⟨d, rfl⟩ := ih found
    exact ⟨d, rfl⟩

/-- A tag: a right angle bracket inside of quotes does not close it. The state is the open quote. -/
def stepTag (quote : Option Char) (c : Char) : Option (Option Char) :=
  match quote with
  | some q => some (if c = q then none else some q)
  | none =>
    if c = '>' then none
    else some (if c = '\'' || c = '"' then some c else none)

/-- A document type: a right angle bracket that balances one inside does not close it. The state is
the number of brackets that are open inside. -/
def stepDoctype (depth : Nat) (c : Char) : Option Nat :=
  if c = '<' then some (depth + 1)
  else if c = '>' then if depth = 0 then none else some (depth - 1)
  else some depth

/-- A construct that a right angle bracket closes behind certain characters. The state is what was
read, last character first. -/
def stepBehind (closes : List Char → Bool) (reversed : List Char) (c : Char) : Option (List Char) :=
  if c = '>' && closes reversed then none else some (c :: reversed)

/-- The content of a construct up to the bracket that closes it, and the text behind. The content
begins right behind the opening bracket. -/
def Construct.split (text : List Char) : Construct → Option (List Char × List Char)
  | .tag => splitWhere stepTag none text
  | .doctype => splitWhere stepDoctype 0 text
  -- the dashes that open a comment do not close it
  | .comment =>
    splitWhere (stepBehind fun read => ['-', '-'].isPrefixOf read && 4 < read.length) [] text
  | .cdata => splitWhere (stepBehind fun read => [']', ']'].isPrefixOf read) [] text
  | .instruction => splitWhere (stepBehind fun read => ['?'].isPrefixOf read) [] text

theorem Construct.length_of_split {construct : Construct} {text content rest : List Char}
    (h : construct.split text = some (content, rest)) : rest.length < text.length := by
  cases construct <;>
    (obtain ⟨c, rfl⟩ := splitWhere_eq_some h; simp; omega)

/-! ### What a construct says -/

/-- The construct that the text behind a left angle bracket opens. -/
def Construct.ofText : List Char → Option Construct
  | '!' :: '[' :: _ => some .cdata
  | '!' :: '-' :: _ => some .comment
  | '!' :: 'D' :: _ | '!' :: 'd' :: _ => some .doctype
  | '!' :: _ => none
  | '?' :: _ => some .instruction
  | _ => some .tag

/-- A document type names itself with letters in either case. -/
def opensDoctype (content : List Char) : Bool :=
  "!doctype".toList.isPrefixOf (content.map Char.toLower)

/-- The name in a closing tag: all behind the slash but the spaces at the end. If there are only
spaces, they are the name. -/
def closingName (content : List Char) : List Char :=
  let name := content.drop 1
  if name.all isSpace then name else (name.reverse.dropWhile isSpace).reverse

/-- The event of a tag, and the names of the elements open behind it, innermost first. -/
def eventOfTag (opened : List (List Char)) (content : List Char) :
    Except Fault (Event × List (List Char)) :=
  match content.head?, opened with
  | some '/', [] => .error (.unmatchedEnd (.ofList (closingName content)))
  | some '/', expected :: opened =>
    let found := closingName content
    if found = expected then .ok (.close, opened)
    else .error (.mismatchedEnd (.ofList expected) (.ofList found))
  | _, _ =>
    if content.getLast? = some '/' then .ok (.empty (.ofContent content.dropLast), opened)
    else
      let tag := StartTag.ofContent content
      .ok (.start tag, tag.name :: opened)

/-- The event of a construct with the given content, and the elements open behind it. A construct
whose opening characters are not complete counts as not closed. -/
def eventOf (opened : List (List Char)) (content : List Char) :
    Construct → Except Fault (Event × List (List Char))
  | .tag => eventOfTag opened content
  | .comment =>
    if "!--".toList.isPrefixOf content then .ok (.aside, opened) else .error (.unclosed .comment)
  | .cdata =>
    if "![CDATA[".toList.isPrefixOf content then
      .ok (.cdata ((content.drop 8).take (content.length - 10)), opened)
    else .error (.unclosed .cdata)
  | .doctype =>
    if !opensDoctype content then .error (.unclosed .doctype)
    else if (content.drop 8).all isSpace then .error .missingDoctypeName
    else .ok (.aside, opened)
  | .instruction =>
    if 1 < content.length then .ok (.aside, opened) else .error (.unclosed .instruction)

/-- What a tag says, and which elements are open behind it: it closes the innermost one, or does not
begin with a slash. -/
theorem eventOfTag_cases {opened opened' : List (List Char)} {content : List Char} {event : Event}
    (read : eventOfTag opened content = .ok (event, opened')) :
    (∃ name, opened = name :: opened' ∧ event = .close) ∨ content.head? ≠ some '/' ∧
      (opened' = opened ∧ event = .empty (.ofContent content.dropLast) ∨
        opened' = (StartTag.ofContent content).name :: opened ∧
          event = .start (.ofContent content)) := by
  by_cases slash : content.head? = some '/'
  · left
    cases opened with
    | nil =>
      simp only [eventOfTag, slash] at read
      cases read
    | cons expected opened =>
      simp only [eventOfTag, slash] at read
      split at read
      · obtain ⟨rfl, rfl⟩ := Prod.mk.inj (Except.ok.inj read)
        exact ⟨expected, rfl, rfl⟩
      · cases read
  · refine .inr ⟨slash, ?_⟩
    unfold eventOfTag at read
    split at read
    · exact absurd ‹_› slash
    · exact absurd ‹_› slash
    · split at read
      · obtain ⟨rfl, rfl⟩ := Prod.mk.inj (Except.ok.inj read)
        exact .inl ⟨rfl, rfl⟩
      · obtain ⟨rfl, rfl⟩ := Prod.mk.inj (Except.ok.inj read)
        exact .inr ⟨rfl, rfl⟩

/-- Only tags open and close elements. -/
theorem eventOf_cases {opened opened' : List (List Char)} {content : List Char}
    {construct : Construct} {event : Event}
    (read : eventOf opened content construct = .ok (event, opened')) :
    opened' = opened ∧
        (event = .aside ∨ event = .cdata ((content.drop 8).take (content.length - 10))) ∨
      construct = .tag ∧ eventOfTag opened content = .ok (event, opened') := by
  cases construct with
  | tag => exact .inr ⟨rfl, read⟩
  | comment | cdata | instruction =>
    simp only [eventOf] at read
    split at read
    · obtain ⟨rfl, rfl⟩ := Prod.mk.inj (Except.ok.inj read)
      simp
    · cases read
  | doctype =>
    simp only [eventOf] at read
    split at read
    · cases read
    · split at read
      · cases read
      · obtain ⟨rfl, rfl⟩ := Prod.mk.inj (Except.ok.inj read)
        simp

/-- The byte at which a fault is found in the construct that begins at `offset`: its first one,
except for a missing name, which is missed at the closing bracket. -/
def faultPosition (offset : Nat) (content : List Char) : Fault → Nat
  | .missingDoctypeName => offset + 1 + byteLength content
  | _ => offset

/-! ### The events of a markup -/

/-- Events up to the end of the markup or to its first fault. -/
structure EventStream where
  events : List Event
  error : Option MarkupError
  deriving DecidableEq, Repr

/-- The stream with an event in front. -/
def EventStream.cons (event : Event) (stream : EventStream) : EventStream :=
  { stream with events := event :: stream.events }

/-- The events in the rest of a markup, which begins at byte `offset` inside of the elements
`opened`. -/
def eventsFrom (opened : List (List Char)) (offset : Nat) (text : List Char) : EventStream :=
  match text with
  | [] => ⟨[], none⟩
  | c :: rest =>
    if c = '<' then
      match Construct.ofText rest with
      | none => ⟨[], some ⟨offset, .unknownMarkup⟩⟩
      | some construct =>
        match _found : construct.split rest with
        | none => ⟨[], some ⟨offset, .unclosed construct⟩⟩
        | some (content, behind) =>
          match eventOf opened content construct with
          | .error fault => ⟨[], some ⟨faultPosition offset content fault, fault⟩⟩
          | .ok (event, opened) =>
            (eventsFrom opened (offset + byteLength content + 2) behind).cons event
    else
      let raw := c :: rest.takeWhile (· ≠ '<')
      let stop := offset + byteLength raw
      (eventsFrom opened stop (rest.dropWhile (· ≠ '<'))).cons (.text raw stop)
termination_by text.length
decreasing_by
  · have := Construct.length_of_split _found
    simp only [List.length_cons]
    omega
  · have := (List.dropWhile_suffix (· ≠ '<') : _ <:+ rest).length_le
    simp only [List.length_cons]
    omega

/-- The events of a markup. -/
def events (markup : List Char) : EventStream :=
  eventsFrom [] 0 markup

end Libretto.Markup
