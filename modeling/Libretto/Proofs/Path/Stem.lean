/-
The names that outputs get.

A name is cut at its last dot, unless nothing stands in front of it.  An output is named by putting
another extension in place of that of the stem.  So what the stem itself holds behind a dot is lost:

* **`splitExtension_append`**, **`splitExtension_of_plain`** — where a name is cut;
* **`slash_not_mem_stem`** — a stem is part of one component;
* **`replaceExtension_of_plain`**, **`replaceExtension_append`** — what a new extension leaves;
* **`IsPlain`** — no dot stands in the stem, but for one that begins it;
* **`defaultOutput_of_stem`** — an output has no directories, and its name keeps the whole stem if
  and only if the stem is plain;
* **`dotted_stems_collide`** — stems that differ behind a dot have one output.
-/
import Libretto.Manifest
import Libretto.Proofs.Text.Cut

namespace Libretto

namespace Path

variable {name stem front back : List Char}

/-! ### Where a name is cut -/

/-- A name that has something in front of its last dot is cut there. -/
theorem splitExtension_append (nonempty : front ≠ []) (last : '.' ∉ back) :
    splitExtension (front ++ '.' :: back) = (front, some back) := by
  have reversed : (front ++ '.' :: back).reverse = back.reverse ++ '.' :: front.reverse := by simp
  have behind : (back.reverse ++ '.' :: front.reverse).takeWhile (· ≠ '.') = back.reverse :=
    (Text.takeWhile_ne (fun mem => last (List.mem_reverse.1 mem)) (by simp)).1
  have ahead : (back.reverse ++ '.' :: front.reverse).drop (back.reverse.length + 1) =
      front.reverse := by
    rw [List.append_cons]
    exact List.drop_left' List.length_append
  rw [splitExtension, reversed, behind, ahead]
  split
  · next none => exact absurd (List.reverse_eq_nil_iff.1 none) nonempty
  · simp

/-- A name without a dot, or with one dot that begins it, has no extension. -/
theorem splitExtension_of_plain (plain : '.' ∉ name.tail) : splitExtension name = (name, none) := by
  have nothing : (name.reverse.drop ((name.reverse.takeWhile (· ≠ '.')).length + 1)) = [] := by
    rw [List.drop_eq_nil_iff, List.length_reverse]
    cases name with
    | nil => exact Nat.zero_le _
    | cons first rest =>
      -- from the end, no dot stops the search before the first character
      have passed : ∀ c ∈ rest.reverse, decide (c ≠ '.') = true := fun c mem =>
        decide_eq_true (ne_of_mem_of_not_mem (List.mem_reverse.1 mem) plain)
      rw [List.reverse_cons, List.takeWhile_append_of_pos passed, List.length_append,
        List.length_reverse, List.length_cons]
      omega
  rw [splitExtension, nothing]

/-- A name without an extension, or one that is cut at its last dot. -/
theorem plain_or_dotted (name : List Char) :
    '.' ∉ name.tail ∨ ∃ front back, name = front ++ '.' :: back ∧ front ≠ [] ∧ '.' ∉ back := by
  by_cases dotted : '.' ∈ name.tail
  · right
    cases name with
    | nil => cases dotted
    | cons first rest =>
      obtain ⟨front, back, rfl, last⟩ := Text.exists_last dotted
      exact ⟨first :: front, back, rfl, List.cons_ne_nil first front, last⟩
  · exact .inl dotted

/-! ### Names and stems are single components -/

theorem slash_not_mem_splitLast (text : List Char) : '/' ∉ (splitLast text).2 := by
  intro mem
  exact Text.not_mem_takeWhile_ne (List.mem_reverse.1 mem)

theorem slash_not_mem_fileName {path : Path} (named : path.fileName? = some name) :
    '/' ∉ name := by
  rw [fileName?] at named
  dsimp only at named
  split at named
  · cases named
  · split at named
    · cases named
    · obtain rfl := Option.some.inj named
      exact slash_not_mem_splitLast _

theorem stem_subset (name : List Char) : (splitExtension name).1 ⊆ name := by
  rcases plain_or_dotted name with plain | ⟨front, back, rfl, nonempty, last⟩
  · rw [splitExtension_of_plain plain]
    exact List.Subset.refl name
  · rw [splitExtension_append nonempty last]
    exact List.subset_append_left _ _

theorem slash_not_mem_stem {path : Path} (named : path.stem? = some stem) : '/' ∉ stem := by
  obtain ⟨name, found, rfl⟩ := Option.map_eq_some_iff.1 named
  exact fun mem => slash_not_mem_fileName found (stem_subset name mem)

/-! ### Another extension -/

/-- A stem that a new extension leaves whole: no dot stands in it, unless it begins with one, and it
is no dot by itself. -/
def IsPlain (stem : List Char) : Prop :=
  '.' ∉ stem.tail ∧ stem ≠ ['.']

instance (stem : List Char) : Decidable (IsPlain stem) :=
  inferInstanceAs (Decidable (_ ∧ _))

/-- The stems that are not plain are a dot, and those with a dot behind their first character. -/
theorem isPlain_or (stem : List Char) :
    IsPlain stem ∨ stem = ['.'] ∨
      ∃ front back, stem = front ++ '.' :: back ∧ front ≠ [] ∧ '.' ∉ back := by
  rcases plain_or_dotted stem with plain | dotted
  · by_cases lone : stem = ['.']
    · exact .inr (.inl lone)
    · exact .inl ⟨plain, lone⟩
  · exact .inr (.inr dotted)

theorem isDots_eq_false_iff : isDots name = false ↔ name ≠ ['.'] ∧ name ≠ ['.', '.'] := by
  rw [isDots, Bool.or_eq_false_iff, decide_eq_false_iff_not, decide_eq_false_iff_not]

theorem replaceExtension_of_plain (plain : IsPlain stem) (extension : List Char) :
    replaceExtension stem extension = stem ++ '.' :: extension := by
  have noDots : isDots stem = false := by
    refine isDots_eq_false_iff.2 ⟨plain.2, ?_⟩
    rintro rfl
    exact plain.1 (by simp)
  have whole := splitExtension_of_plain plain.1
  simp [replaceExtension, noDots, whole]

/-- Without the extension, its dot stays. -/
theorem take_dotted (front back : List Char) :
    (front ++ '.' :: back).take ((front ++ '.' :: back).length - back.length) = front ++ ['.'] := by
  rw [List.append_cons]
  have all : (front ++ ['.'] ++ back).length = (front ++ ['.']).length + back.length :=
    List.length_append
  exact List.take_left' (by omega)

/-- What stands behind the last dot of a stem gives way to the new extension. -/
theorem replaceExtension_append (nonempty : front ≠ []) (noDot : front ≠ ['.'])
    (last : '.' ∉ back) (extension : List Char) :
    replaceExtension (front ++ '.' :: back) extension = front ++ '.' :: extension := by
  obtain ⟨first, rest, rfl⟩ := List.exists_cons_of_ne_nil nonempty
  have noDots : ∀ behind, isDots (first :: rest ++ '.' :: behind) = false := by
    intro behind
    rw [isDots_eq_false_iff]
    cases rest with
    | nil => simp [show first ≠ '.' from fun same => noDot (same ▸ rfl)]
    | cons second rest => simp
  have bare : splitExtension (first :: rest ++ ['.']) = (first :: rest, some []) :=
    splitExtension_append nonempty (by simp)
  rw [replaceExtension, noDots, splitExtension_append nonempty last]
  dsimp only
  rw [take_dotted, noDots, bare]
  rfl

/-- A stem with a lone dot in front of its extension is left with two dots. -/
theorem replaceExtension_dots (last : '.' ∉ back) (extension : List Char) :
    replaceExtension (['.'] ++ '.' :: back) extension = ['.', '.'] := by
  cases back with
  | nil => rfl
  | cons c rest =>
    have noDots : isDots (['.'] ++ '.' :: c :: rest) = false :=
      isDots_eq_false_iff.2 ⟨by simp, by simp⟩
    rw [replaceExtension, noDots, splitExtension_append (by simp) last]
    dsimp only
    rw [take_dotted]
    rfl

/-- A new extension adds no other characters. -/
theorem replaceExtension_subset (stem extension : List Char) :
    replaceExtension stem extension ⊆ stem ++ '.' :: extension := by
  rcases isPlain_or stem with plain | rfl | ⟨front, back, rfl, nonempty, last⟩
  · rw [replaceExtension_of_plain plain]
    exact List.Subset.refl _
  · exact List.subset_append_left _ _
  · by_cases lone : front = ['.']
    · subst lone
      rw [replaceExtension_dots last]
      simp
    · rw [replaceExtension_append nonempty lone last, List.append_assoc, List.cons_append]
      intro c mem
      simp only [List.mem_append, List.mem_cons] at mem ⊢
      exact mem.imp_right fun mem => .inr (.inr mem)

end Path

namespace UnitKind

open Libretto.Path

variable {source other : Path} {stem : List Char}

theorem slash_not_mem_extension (kind : UnitKind) : '/' ∉ kind.extension.toList := by
  cases kind <;> decide +kernel

/-- The output of a source with a stem is that stem with another extension. -/
theorem chars_defaultOutput (kind : UnitKind) (named : source.stem? = some stem) :
    (kind.defaultOutput source).chars = replaceExtension stem kind.extension.toList := by
  rw [defaultOutput, stemWithExtension, named]
  exact String.toList_ofList

theorem slash_not_mem_defaultOutput (kind : UnitKind) (named : source.stem? = some stem) :
    '/' ∉ (kind.defaultOutput source).chars := by
  rw [kind.chars_defaultOutput named]
  intro mem
  rcases List.mem_append.1 (replaceExtension_subset _ _ mem) with mem | mem
  · exact slash_not_mem_stem named mem
  · rcases List.mem_cons.1 mem with same | mem
    · exact absurd same (by decide)
    · exact kind.slash_not_mem_extension mem

/-- Of a stem with a dot behind its first character, what stands behind the last one is lost. -/
theorem chars_defaultOutput_append (kind : UnitKind) {front back : List Char}
    (named : source.stem? = some (front ++ '.' :: back)) (nonempty : front ≠ [])
    (last : '.' ∉ back) :
    (kind.defaultOutput source).chars =
      if front = ['.'] then ['.', '.'] else front ++ '.' :: kind.extension.toList := by
  rw [kind.chars_defaultOutput named]
  split
  · next lone =>
    subst lone
    exact replaceExtension_dots last _
  · next some => exact replaceExtension_append nonempty some last _

theorem chars_defaultOutput_eq_iff (kind : UnitKind) (named : source.stem? = some stem) :
    (kind.defaultOutput source).chars = stem ++ '.' :: kind.extension.toList ↔ IsPlain stem := by
  constructor
  · intro kept
    rcases isPlain_or stem with plain | rfl | ⟨front, back, rfl, nonempty, last⟩
    · exact plain
    · rw [kind.chars_defaultOutput named] at kept
      cases kept
    · -- the name would have to hold what stands behind the dot, too
      have length := congrArg List.length kept
      rw [kind.chars_defaultOutput_append named nonempty last] at length
      split at length
      · next lone =>
        subst lone
        simp only [List.length_append, List.length_cons, List.length_nil] at length
        omega
      · simp only [List.length_append, List.length_cons] at length
        omega
  · intro plain
    rw [kind.chars_defaultOutput named, replaceExtension_of_plain plain]

/-- An output has no directories.  Its name is the whole stem with the extension of the kind if and
only if the stem is plain; of any other stem what stands behind its last dot is lost, and where
nothing but a dot stands in front of that, so is the extension.  Two sources with plain stems share
an output only if they share the stem. -/
theorem defaultOutput_of_stem (kind : UnitKind) (named : source.stem? = some stem) :
    '/' ∉ (kind.defaultOutput source).chars ∧
    ((kind.defaultOutput source).chars = stem ++ '.' :: kind.extension.toList ↔ IsPlain stem) ∧
    (∀ front back, stem = front ++ '.' :: back → front ≠ [] → '.' ∉ back →
      (kind.defaultOutput source).chars =
        if front = ['.'] then ['.', '.'] else front ++ '.' :: kind.extension.toList) ∧
    (stem = ['.'] → (kind.defaultOutput source).chars = ['.']) ∧
    ∀ other stem', other.stem? = some stem' → IsPlain stem → IsPlain stem' → stem ≠ stem' →
      kind.defaultOutput source ≠ kind.defaultOutput other := by
  refine ⟨kind.slash_not_mem_defaultOutput named, kind.chars_defaultOutput_eq_iff named, ?_, ?_, ?_⟩
  · rintro front back rfl nonempty last
    exact kind.chars_defaultOutput_append named nonempty last
  · rintro rfl
    exact kind.chars_defaultOutput named
  · intro other stem' named' plain plain' different same
    have chars := congrArg Path.chars same
    rw [(kind.chars_defaultOutput_eq_iff named).2 plain,
      (kind.chars_defaultOutput_eq_iff named').2 plain'] at chars
    exact different (List.append_cancel_right chars)

/-- A stem that begins with a dot, beside another one. -/
theorem defaultOutput_of_stem_hidden :
    (Path.mk "a/.shop.drama").stem? = some ".shop".toList ∧ IsPlain ".shop".toList ∧
      (drama.defaultOutput ⟨"a/.shop.drama"⟩).chars = ".shop".toList ++ '.' :: "drac".toList ∧
      (Path.mk "a/shop.drama").stem? = some "shop".toList ∧ IsPlain "shop".toList ∧
      drama.defaultOutput ⟨"a/.shop.drama"⟩ ≠ drama.defaultOutput ⟨"a/shop.drama"⟩ := by
  have named : (Path.mk "a/.shop.drama").stem? = some ".shop".toList := by decide +kernel
  have named' : (Path.mk "a/shop.drama").stem? = some "shop".toList := by decide +kernel
  have plain : IsPlain ".shop".toList := by decide +kernel
  have plain' : IsPlain "shop".toList := by decide +kernel
  obtain ⟨-, whole, -, -, apart⟩ := drama.defaultOutput_of_stem named
  have different : ".shop".toList ≠ "shop".toList := by decide +kernel
  exact ⟨named, plain, whole.2 plain, named', plain', apart _ _ named' plain plain' different⟩

/-- Two sources whose stems differ behind a dot have one output, which is named like neither. -/
theorem dotted_stems_collide :
    (Path.mk "level.one.plop").stem? = some "level.one".toList ∧
      (Path.mk "level.two.plop").stem? = some "level.two".toList ∧
      "level.one".toList ≠ "level.two".toList ∧
      script.defaultOutput ⟨"level.one.plop"⟩ = script.defaultOutput ⟨"level.two.plop"⟩ ∧
      (script.defaultOutput ⟨"level.one.plop"⟩).chars ≠
        "level.one".toList ++ '.' :: script.extension.toList := by
  decide +kernel

end UnitKind

end Libretto
