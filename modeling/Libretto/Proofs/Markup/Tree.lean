/-
Events as trees.

Where every element that opens is closed, and none is closed that is not open, events describe a
sequence of trees, and only one:

* **`Content`**, **`Content.eventsOf`** — the trees, and the events of a sequence of them;
* **`Balanced`** — the elements of some events match, by counting alone;
* **`Matched`** — they do as far as they are closed, which `matched_events` says of a markup;
* **`treesOf`** — the trees of events, from the last event to the first;
* **`treesOf_eventsOf`**, **`eventsOf_treesOf`** — the two are inverse to each other.
-/
import Libretto.Markup.Event

namespace Libretto.Markup

/-- A piece of a markup with all that is inside of it. -/
inductive Content where
  | element (tag : StartTag) (children : List Content)
  /-- An element that closes itself. -/
  | empty (tag : StartTag)
  | text (raw : List Char) (stop : Nat)
  | cdata (text : List Char)
  /-- A comment, an instruction or a document type. -/
  | aside

namespace Content

mutual

/-- The events of a piece. -/
def events : Content → List Event
  | element tag children => .start tag :: (eventsOf children ++ [.close])
  | empty tag => [.empty tag]
  | text raw stop => [.text raw stop]
  | cdata literal => [.cdata literal]
  | aside => [.aside]

/-- The events of pieces one after the other. -/
def eventsOf : List Content → List Event
  | [] => []
  | content :: rest => content.events ++ eventsOf rest

end

end Content

open Content (eventsOf)

/-- The number of open elements behind events, unless these close an element that is not open. -/
def depthBehind (depth : Nat) : List Event → Option Nat
  | [] => some depth
  | .start _ :: rest => depthBehind (depth + 1) rest
  | .close :: rest =>
    match depth with
    | 0 => none
    | depth + 1 => depthBehind depth rest
  | _ :: rest => depthBehind depth rest

/-- Every element that opens is closed, and no other. -/
def Balanced (events : List Event) : Prop :=
  depthBehind 0 events = some 0

instance (events : List Event) : Decidable (Balanced events) :=
  inferInstanceAs (Decidable (_ = _))

/-- No element is closed that is not open.  At the end elements may be open. -/
def Matched (events : List Event) : Prop :=
  (depthBehind 0 events).isSome

/-- The pieces in front of the first closing tag without an opening one, and the pieces between that
and the next, and so on.  An element without a closing tag extends to the end. -/
def layers : List Event → List Content × List (List Content)
  | [] => ([], [])
  | .start tag :: rest =>
    match layers rest with
    | (inner, []) => ([.element tag inner], [])
    | (inner, here :: outer) => (.element tag inner :: here, outer)
  | .close :: rest => ([], (layers rest).1 :: (layers rest).2)
  | .empty tag :: rest => (.empty tag :: (layers rest).1, (layers rest).2)
  | .text raw stop :: rest => (.text raw stop :: (layers rest).1, (layers rest).2)
  | .cdata text :: rest => (.cdata text :: (layers rest).1, (layers rest).2)
  | .aside :: rest => (.aside :: (layers rest).1, (layers rest).2)

/-- The trees of events. -/
def treesOf (events : List Event) : List Content :=
  (layers events).1

mutual

theorem layers_events (content : Content) (rest : List Event) :
    layers (content.events ++ rest) = (content :: (layers rest).1, (layers rest).2) := by
  cases content with
  | element tag children =>
    have inner := layers_eventsOf children (.close :: rest)
    rw [Content.events, List.cons_append, List.append_assoc, List.singleton_append, layers, inner]
    simp [layers]
  | empty | text | cdata | aside => rfl

/-- The trees of events stand in front of what follows these. -/
theorem layers_eventsOf (trees : List Content) (rest : List Event) :
    layers (eventsOf trees ++ rest) = (trees ++ (layers rest).1, (layers rest).2) := by
  cases trees with
  | nil => rfl
  | cons content trees =>
    rw [eventsOf, List.append_assoc, layers_events content, layers_eventsOf trees]
    rfl

end

theorem treesOf_eventsOf (trees : List Content) : treesOf (eventsOf trees) = trees := by
  have whole := layers_eventsOf trees []
  rw [List.append_nil] at whole
  rw [treesOf, whole]
  exact List.append_nil trees

/-- Events that close as many elements as are open consist of one layer more. -/
theorem eventsOf_layers {depth : Nat} {events : List Event}
    (closed : depthBehind depth events = some 0) :
    (layers events).2.length = depth ∧
      events = eventsOf (layers events).1 ++
        (layers events).2.flatMap fun trees => .close :: eventsOf trees := by
  induction events generalizing depth with
  | nil =>
    obtain rfl := Option.some.inj closed
    exact ⟨rfl, rfl⟩
  | cons event rest ih =>
    cases event with
    | start tag =>
      have behind : depthBehind (depth + 1) rest = some 0 := closed
      obtain ⟨count, same⟩ := ih behind
      rw [layers]
      -- the element that opens takes the first layer, so there is one to take
      cases parts : layers rest with
      | mk inner outer =>
        rw [parts] at count same
        cases outer with
        | nil => cases count
        | cons here outer =>
          refine ⟨Nat.succ.inj count, ?_⟩
          rw [same]
          simp [eventsOf, Content.events]
    | close =>
      cases depth with
      | zero => cases closed
      | succ depth =>
        have behind : depthBehind depth rest = some 0 := closed
        obtain ⟨count, same⟩ := ih behind
        exact ⟨congrArg (· + 1) count, congrArg (Event.close :: ·) same⟩
    | empty | text | cdata | aside =>
      have behind : depthBehind depth rest = some 0 := closed
      obtain ⟨count, same⟩ := ih behind
      exact ⟨count, congrArg (List.cons _) same⟩

theorem eventsOf_treesOf {events : List Event} (balanced : Balanced events) :
    eventsOf (treesOf events) = events := by
  obtain ⟨none, same⟩ := eventsOf_layers balanced
  rw [List.length_eq_zero_iff.1 none, List.flatMap_nil, List.append_nil] at same
  exact same.symm

/-- Balanced events are those of one sequence of trees. -/
theorem existsUnique_eventsOf {events : List Event} (balanced : Balanced events) :
    ∃ trees, eventsOf trees = events ∧ ∀ other, eventsOf other = events → other = trees := by
  refine ⟨treesOf events, eventsOf_treesOf balanced, ?_⟩
  rintro other rfl
  exact (treesOf_eventsOf other).symm

/-! ### The events of a markup -/

variable {opened opened' : List (List Char)} {content : List Char} {construct : Construct}
  {event : Event}

/-- The names that are held are those of the open elements, and only one of them is closed. -/
theorem depthBehind_eventOf (read : eventOf opened content construct = .ok (event, opened'))
    (rest : List Event) :
    depthBehind opened.length (event :: rest) = depthBehind opened'.length rest := by
  rcases eventOf_cases read with ⟨rfl, rfl | rfl⟩ | ⟨-, read⟩
  · rfl
  · rfl
  · rcases eventOfTag_cases read with ⟨name, rfl, rfl⟩ | ⟨-, ⟨rfl, rfl⟩ | ⟨rfl, rfl⟩⟩ <;> rfl

theorem isSome_depthBehind_eventsFrom (opened : List (List Char)) (offset : Nat)
    (text : List Char) :
    (depthBehind opened.length (eventsFrom opened offset text).events).isSome := by
  fun_induction eventsFrom opened offset text with
  | case1 | case2 | case3 | case4 => rfl
  | case5 _ _ _ _ _ _ _ _ _ _ read ih =>
    rw [EventStream.cons, depthBehind_eventOf read]
    exact ih
  | case6 _ _ _ _ _ _ _ ih => exact ih

/-- A closing tag without an opening one is a fault, and events end in front of it. -/
theorem matched_events (markup : List Char) : Matched (events markup).events :=
  isSome_depthBehind_eventsFrom [] 0 markup

end Libretto.Markup
