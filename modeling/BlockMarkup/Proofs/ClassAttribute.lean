import BlockMarkup.Proofs.Tagging

namespace BlockMarkup.Naming

open Identifier

variable {t front back start name : Text} {c : Char}

structure Attribute where
  gap : Text
  name : Text
  value : Text
  apart : gap ≠ [] ∧ ∀ c ∈ gap, isBlank c = true
  named : name ≠ [] ∧ ∀ c ∈ name, isBlank c = false ∧ c ≠ '=' ∧ c ≠ '"' ∧ c ≠ '>'
  quoted : ∀ c ∈ value, c ≠ '"' ∧ c ≠ '>'

namespace Attribute

variable {a b : Attribute}

def written (a : Attribute) : Text := a.gap ++ (a.name ++ ('=' :: '"' :: (a.value ++ ['"'])))

theorem written_append (a : Attribute) (rest : Text) : a.written ++ rest =
    a.gap ++ (a.name ++ '=' :: '"' :: (a.value ++ '"' :: rest)) := by
  simp [written]

theorem name_filled (a : Attribute) (back : Text) : ∀ c ∈ (a.name ++ back).head?, isBlank c = false := by
  obtain ⟨present, chars⟩ := a.named
  intro c first
  rw [List.head?_append_of_ne_nil _ present] at first
  exact (chars c (List.mem_of_mem_head? first)).1

theorem cut_at_equals (a : Attribute) (rest : Text) :
    (a.gap ++ (a.name ++ '=' :: rest)).takeWhile isBlank = a.gap ∧
      splitAtFirst? '=' (trimStart (a.gap ++ (a.name ++ '=' :: rest))) = some (a.name, rest) := by
  have cut := takeWhile_append_stop a.apart.2 (a.name_filled ('=' :: rest))
  refine ⟨cut.1, ?_⟩
  rw [trimStart, cut.2]
  exact splitAtFirst?_eq_some_iff.mpr ⟨rfl, fun member => (a.named.2 '=' member).2.1 rfl⟩

theorem quote_notMem (a : Attribute) : '"' ∉ a.value := fun member => (a.quoted '"' member).1 rfl

theorem cut_at_quote (a : Attribute) (rest : Text) :
    splitAtFirst? '"' (a.value ++ '"' :: rest) = some (a.value, rest) :=
  splitAtFirst?_eq_some_iff.mpr ⟨rfl, a.quote_notMem⟩

theorem written_inj {rest more : Text} (same : a.written ++ rest = b.written ++ more) :
    a = b ∧ rest = more := by
  rw [written_append, written_append] at same
  obtain ⟨gap, name⟩ := a.cut_at_equals ('"' :: (a.value ++ '"' :: rest))
  obtain ⟨gap', name'⟩ := b.cut_at_equals ('"' :: (b.value ++ '"' :: more))
  rw [same, gap'] at gap
  rw [same, name', Option.some.injEq, Prod.mk.injEq] at name
  have value := a.cut_at_quote rest
  rw [← (List.cons.inj name.2).2, b.cut_at_quote, Option.some.injEq, Prod.mk.injEq] at value
  refine ⟨?_, value.2.symm⟩
  obtain ⟨_, _, _, _, _, _⟩ := a
  obtain ⟨_, _, _, _, _, _⟩ := b
  dsimp only at gap name value
  obtain ⟨rfl, rfl, rfl⟩ := And.intro gap (And.intro name.1 value.1)
  rfl

theorem written_ne_nil (a : Attribute) : a.written ≠ [] := by simp [written]

end Attribute

def writtenAll (attributes : List Attribute) : Text := attributes.flatMap Attribute.written

theorem writtenAll_cons (a : Attribute) (rest : List Attribute) :
    writtenAll (a :: rest) = a.written ++ writtenAll rest := rfl

theorem writtenAll_append (first second : List Attribute) :
    writtenAll (first ++ second) = writtenAll first ++ writtenAll second := List.flatMap_append

theorem exists_rest_of_writtenAll {attributes first : List Attribute} {rest : Text}
    (same : writtenAll attributes = writtenAll first ++ rest) :
    ∃ others, attributes = first ++ others ∧ writtenAll others = rest := by
  induction first generalizing attributes with
  | nil => exact ⟨attributes, rfl, same⟩
  | cons a first ih =>
    rw [writtenAll_cons, List.append_assoc] at same
    cases attributes with
    | nil => exact absurd (List.append_eq_nil_iff.mp same.symm).1 a.written_ne_nil
    | cons b attributes =>
      rw [writtenAll_cons] at same
      obtain ⟨rfl, later⟩ := Attribute.written_inj same
      obtain ⟨others, rfl, whole⟩ := ih later
      exact ⟨others, rfl, whole⟩

theorem writtenAll_inj {first second : List Attribute} (same : writtenAll first = writtenAll second) :
    first = second := by
  obtain ⟨others, rfl, nothing⟩ := exists_rest_of_writtenAll (same.trans (List.append_nil _).symm)
  cases others with
  | nil => exact List.append_nil second
  | cons a others => exact absurd (List.append_eq_nil_iff.mp nothing).1 a.written_ne_nil

variable {before : Option Char} {rest value after : Text}

-- A class attribute opens with the quote behind a text, and no word before it goes on in its name.
def OpensAtEnd (before : Option Char) (t : Text) : Prop :=
  ∃ front start, t ++ ['"'] = front ++ start ∧ OpensClass start ∧
    (front.getLast?.or before).any isWord = false

theorem OpensAtEnd.ne_nil (opens : OpensAtEnd before t) : t ≠ [] := by
  rintro rfl
  obtain ⟨front, _, whole, ⟨gap, space, _, _, rfl⟩, _⟩ := opens
  have length := congrArg List.length whole
  simp only [List.nil_append, List.length_append, List.length_cons, List.length_nil] at length
  omega

theorem opensAtEnd_cons : OpensAtEnd before (c :: t) ↔
    before.any isWord = false ∧ OpensClass (c :: t ++ ['"']) ∨ OpensAtEnd (some c) t := by
  constructor
  · rintro ⟨front, start, whole, opens, free⟩
    cases front with
    | nil => exact .inl ⟨free, by rwa [whole]⟩
    | cons d front =>
      obtain ⟨rfl, later⟩ := List.cons.inj whole
      rw [getLast?_cons_or] at free
      exact .inr ⟨front, start, later, opens, free⟩
  · rintro (⟨free, opens⟩ | ⟨front, start, whole, opens, free⟩)
    · exact ⟨[], _, rfl, opens, free⟩
    · refine ⟨c :: front, start, by rw [List.cons_append, whole, List.cons_append], opens, ?_⟩
      rw [getLast?_cons_or]
      exact free

theorem classHere?_isSome_iff (noQuote : '"' ∉ t) (ends : '"' ∈ rest) :
    (classHere? (t ++ '"' :: rest)).isSome = true ↔ OpensClass (t ++ ['"']) := by
  constructor
  · intro here
    obtain ⟨found, read⟩ := Option.isSome_iff_exists.mp here
    obtain ⟨opens, _, _, whole⟩ := classHere?_eq_some_iff.mp read
    obtain ⟨front, start, absent⟩ := opens.quote
    rw [start, List.append_assoc, List.singleton_append] at whole
    have first : splitAtFirst? '"' (t ++ '"' :: rest) = some (t, rest) :=
      splitAtFirst?_eq_some_iff.mpr ⟨rfl, noQuote⟩
    rw [whole, splitAtFirst?_eq_some_iff.mpr ⟨rfl, absent⟩] at first
    cases first
    exact start ▸ opens
  · intro opens
    obtain ⟨value, after, rfl, absent⟩ := List.eq_append_cons_of_mem ends
    have here : classHere? (t ++ '"' :: (value ++ '"' :: after)) =
        some ⟨t ++ ['"'], value, '"' :: after⟩ :=
      classHere?_eq_some_iff.mpr ⟨opens, absent, ⟨after, rfl⟩, by simp⟩
    rw [here, Option.isSome_some]

theorem not_here_of_unopened (noQuote : '"' ∉ t) (ends : '"' ∈ rest)
    (unopened : ¬(before.any isWord = false ∧ OpensClass (t ++ ['"']))) :
    before.any isWord = true ∨ classHere? (t ++ '"' :: rest) = none := by
  rw [← classHere?_isSome_iff noQuote ends, not_and, Bool.not_eq_true, Option.isSome_eq_false_iff,
    Option.isNone_iff_eq_none] at unopened
  cases joined : before.any isWord with
  | true => exact .inl rfl
  | false => exact .inr (unopened joined)

theorem classValue?_opened (noQuote : '"' ∉ t) (absent : '"' ∉ value) (opens : OpensAtEnd before t) :
    classValue? before (t ++ '"' :: (value ++ '"' :: after)) =
      some ⟨t ++ ['"'], value, '"' :: after⟩ := by
  induction t generalizing before with
  | nil => exact absurd rfl opens.ne_nil
  | cons c t ih =>
    have inRest : '"' ∉ t := fun member => noQuote (List.mem_cons_of_mem c member)
    by_cases here : before.any isWord = false ∧ OpensClass (c :: t ++ ['"'])
    · refine classValue?_here here.1 (classHere?_eq_some_iff.mpr ⟨here.2, absent, ⟨after, rfl⟩, ?_⟩)
      simp
    · have later := (opensAtEnd_cons.mp opens).resolve_left here
      have ends : '"' ∈ value ++ '"' :: after := by simp
      have past := not_here_of_unopened noQuote ends here
      rw [List.cons_append] at past ⊢
      rw [classValue?_past past, ih inRest later]
      rfl

theorem classValue?_unopened (noQuote : '"' ∉ t) (ends : '"' ∈ rest) (opens : ¬OpensAtEnd before t) :
    classValue? before (t ++ '"' :: rest) =
      (classValue? (some '"') rest).map fun found => { found with start := t ++ '"' :: found.start } := by
  induction t generalizing before with
  | nil =>
    rw [List.nil_append, classValue?_past (.inr rfl)]
    rfl
  | cons c t ih =>
    have inRest : '"' ∉ t := fun member => noQuote (List.mem_cons_of_mem c member)
    rw [opensAtEnd_cons, not_or] at opens
    have past := not_here_of_unopened noQuote ends opens.1
    rw [List.cons_append] at past ⊢
    rw [classValue?_past past, ih inRest opens.2, Option.map_map]
    rfl

theorem classValue?_one_quote (noQuote : '"' ∉ t) : classValue? before (t ++ ['"']) = none := by
  cases read : classValue? before (t ++ ['"']) with
  | none => rfl
  | some found =>
    obtain ⟨opened, _, after, closed⟩ := classValue?_opens read
    have quotes := congrArg (List.count '"') (classValue?_eq_some read).whole
    have first := List.count_pos_iff.mpr opened
    rw [closed] at quotes
    simp only [List.count_append, List.count_cons_self, List.count_nil, List.count_eq_zero.mpr noQuote]
      at quotes
    omega

namespace Attribute

variable {a : Attribute}

def NamesClass (a : Attribute) : Prop :=
  ∃ front, a.name = front ++ "class".toList ∧ ∀ c ∈ front.getLast?, isWord c = false

def ValueOpensClass (a : Attribute) : Prop := OpensAtEnd (some '"') a.value

theorem written_eq (a : Attribute) (rest : Text) : a.written ++ rest =
    (a.gap ++ (a.name ++ ['='])) ++ '"' :: (a.value ++ '"' :: rest) := by
  simp [written]

theorem quote_notMem_name (a : Attribute) : '"' ∉ a.gap ++ (a.name ++ ['=']) := by
  simp only [List.mem_append, List.mem_singleton, not_or]
  refine ⟨fun member => ?_, fun member => (a.named.2 '"' member).2.2.1 rfl, by decide⟩
  cases a.apart.2 '"' member

theorem name_last (a : Attribute) : EndsFilled a.name :=
  fun c last => (a.named.2 c (List.mem_of_getLast? last)).1

theorem opensAtEnd_name_iff : OpensAtEnd before (a.gap ++ (a.name ++ ['='])) ↔ a.NamesClass := by
  constructor
  · rintro ⟨front, start, whole, ⟨gap, space, blankGap, blankSpace, rfl⟩, free⟩
    -- No blank stands before or behind the sign, since the name and the quote touch it.
    have cut : a.gap ++ (a.name ++ ['=']) = front ++ ("class".toList ++ gap) ++ '=' :: space := by
      have ends : front ++ ("class".toList ++ (gap ++ '=' :: (space ++ ['"']))) =
          (front ++ ("class".toList ++ gap) ++ '=' :: space) ++ ['"'] := by simp
      rw [ends] at whole
      exact (List.append_inj' whole rfl).1
    obtain rfl : space = [] := by
      have filled : EndsFilled (front ++ ("class".toList ++ gap) ++ ['='] ++ space) := by
        rw [List.append_assoc, List.singleton_append, ← cut, ← List.append_assoc]
        exact endsFilled_concat.mpr rfl
      exact nil_of_endsFilled filled blankSpace
    rw [← List.append_assoc] at cut
    have names := (List.append_inj' cut rfl).1
    obtain rfl : gap = [] := by
      have filled : EndsFilled (front ++ "class".toList ++ gap) := by
        rw [List.append_assoc, ← names]
        exact a.name_last.append a.named.1
      exact nil_of_endsFilled filled blankGap
    rw [List.append_nil] at names
    rcases List.append_eq_append_iff.mp names with ⟨more, rfl, named⟩ | ⟨more, blanks, named⟩
    · refine ⟨more, named, fun c last => ?_⟩
      rw [List.getLast?_append, Option.mem_def.mp last] at free
      exact free
    · cases more with
      | nil => exact ⟨[], named.symm, by simp⟩
      | cons d more =>
        have blank := a.apart.2 d (blanks ▸ List.mem_append_right _ List.mem_cons_self)
        rw [← (List.cons.inj named).1] at blank
        cases blank
  · rintro ⟨front, named, free⟩
    refine ⟨a.gap ++ front, "class=\"".toList, by simp [named], ⟨[], [], by simp, by simp, rfl⟩, ?_⟩
    obtain ⟨present, blank⟩ := a.apart
    obtain ⟨d, last⟩ := List.getLast?_isSome.mpr present |> Option.isSome_iff_exists.mp
    have outside : isWord d = false := isWord_of_isBlank (blank d (List.mem_of_getLast? last))
    rw [List.getLast?_append, last]
    cases ends : front.getLast? with
    | none => exact outside
    | some c => exact free c ends

theorem quote_mem_written (a : Attribute) : '"' ∈ a.written := by simp [written]

theorem classValue?_of_name (names : a.NamesClass) (before : Option Char) (rest : Text) :
    classValue? before (a.written ++ rest) =
      some ⟨a.gap ++ (a.name ++ ['=']) ++ ['"'], a.value, '"' :: rest⟩ := by
  rw [written_eq]
  exact classValue?_opened a.quote_notMem_name a.quote_notMem (opensAtEnd_name_iff.mpr names)

theorem classValue?_behind_name (other : ¬a.NamesClass) (before : Option Char) (rest : Text) :
    classValue? before (a.written ++ rest) =
      (classValue? (some '"') (a.value ++ '"' :: rest)).map fun found =>
        { found with start := a.gap ++ (a.name ++ ['=']) ++ '"' :: found.start } := by
  rw [written_eq]
  exact classValue?_unopened a.quote_notMem_name (by simp) (mt opensAtEnd_name_iff.mp other)

theorem classValue?_of_value (other : ¬a.NamesClass) (opens : a.ValueOpensClass) (absent : '"' ∉ value)
    (before : Option Char) (after : Text) :
    classValue? before (a.written ++ (value ++ '"' :: after)) =
      some ⟨a.written, value, '"' :: after⟩ := by
  rw [classValue?_behind_name other, classValue?_opened a.quote_notMem absent opens, Option.map_some]
  simp [written]

theorem classValue?_past (other : ¬a.NamesClass) (closes : ¬a.ValueOpensClass) (ends : '"' ∈ rest)
    (before : Option Char) : classValue? before (a.written ++ rest) =
      (classValue? (some '"') rest).map fun found => { found with start := a.written ++ found.start } := by
  rw [classValue?_behind_name other, classValue?_unopened a.quote_notMem ends closes, Option.map_map]
  refine congrArg (Option.map · _) (funext fun found => ?_)
  simp [written]

theorem classValue?_last (other : ¬a.NamesClass) (before : Option Char) :
    classValue? before a.written = none := by
  have search := classValue?_behind_name other before []
  rwa [List.append_nil, classValue?_one_quote a.quote_notMem, Option.map_none] at search

end Attribute

variable {attributes others : List Attribute} {a b d : Attribute}

theorem quote_mem_writtenAll (present : attributes ≠ []) : '"' ∈ writtenAll attributes := by
  obtain ⟨a, rest, rfl⟩ := List.exists_cons_of_ne_nil present
  exact List.mem_append_left _ a.quote_mem_written

def Attribute.Passed (a : Attribute) : Prop := ¬a.NamesClass ∧ ¬a.ValueOpensClass

theorem classValue?_passed (passed : ∀ a ∈ attributes, a.Passed) (ends : '"' ∈ rest)
    (before : Option Char) : ∃ last, classValue? before (writtenAll attributes ++ rest) =
      (classValue? last rest).map fun found =>
        { found with start := writtenAll attributes ++ found.start } := by
  induction attributes generalizing before with
  | nil =>
    refine ⟨before, ?_⟩
    change classValue? before rest = (classValue? before rest).map id
    rw [Option.map_id]
    rfl
  | cons a attributes ih =>
    obtain ⟨last, later⟩ := ih (fun b member => passed b (List.mem_cons_of_mem a member)) (some '"')
    obtain ⟨other, closes⟩ := passed a List.mem_cons_self
    refine ⟨last, ?_⟩
    rw [writtenAll_cons, List.append_assoc,
      Attribute.classValue?_past other closes (List.mem_append_right _ ends), later, Option.map_map]
    refine congrArg (Option.map · _) (funext fun found => ?_)
    simp

-- The search stops at an attribute: it takes it for a class attribute, or it begins at the end of its
-- value and finds another quote behind it.
structure StopsAt (attributes front : List Attribute) (b : Attribute) (back : List Attribute) : Prop where
  whole : attributes = front ++ b :: back
  passed : ∀ a ∈ front, a.Passed
  stops : b.NamesClass ∨ b.ValueOpensClass ∧ back ≠ []

theorem stopsAt_cases (attributes : List Attribute) :
    (∀ before, classValue? before (writtenAll attributes) = none) ∧
        (∀ a ∈ attributes, ¬a.NamesClass) ∨
      ∃ front b back, StopsAt attributes front b back := by
  induction attributes with
  | nil => exact .inl ⟨fun _ => rfl, by simp⟩
  | cons a attributes ih =>
    by_cases stops : a.NamesClass ∨ a.ValueOpensClass ∧ attributes ≠ []
    · exact .inr ⟨[], a, attributes, rfl, by simp, stops⟩
    rw [not_or, not_and'] at stops
    obtain ⟨other, closes⟩ := stops
    rcases ih with ⟨nowhere, others⟩ | ⟨front, b, back, rfl, passed, stops⟩
    · refine .inl ⟨fun before => ?_, List.forall_mem_cons.mpr ⟨other, others⟩⟩
      rw [writtenAll_cons]
      by_cases present : attributes = []
      · rw [present]
        exact (congrArg _ (List.append_nil _)).trans (Attribute.classValue?_last other before)
      · rw [Attribute.classValue?_past other (closes present) (quote_mem_writtenAll present), nowhere,
          Option.map_none]
    · refine .inr ⟨a :: front, b, back, rfl, List.forall_mem_cons.mpr ⟨⟨other, closes (by simp)⟩, passed⟩,
        stops⟩

def Attribute.IsClass (a : Attribute) : Prop := a.name = "class".toList

instance : DecidablePred Attribute.IsClass := fun a =>
  inferInstanceAs (Decidable (a.name = "class".toList))

theorem Attribute.IsClass.namesClass (isClass : a.IsClass) : a.NamesClass :=
  ⟨[], isClass, by simp⟩

def classes (attributes : List Attribute) : List Text :=
  (attributes.filter fun a => a.IsClass).flatMap fun a => blankSeparated a.value

def Attribute.withClass (a : Attribute) (isName : isIdentifier name = true) : Attribute :=
  { a with
    value := mergeClass a.value name
    quoted := by
      intro c member
      rcases mem_of_mem_mergeClass member with old | rfl | inName
      · exact a.quoted c old
      · decide
      · have word := isWord_of_isIdentifier isName c inName
        constructor
        all_goals
          rintro rfl
          exact absurd word (by decide) }

def classAttribute (isName : isIdentifier name = true) : Attribute where
  gap := [' ']
  name := "class".toList
  value := name
  apart := by decide
  named := by decide
  quoted := by
    intro c inName
    have word := isWord_of_isIdentifier isName c inName
    constructor
    all_goals
      rintro rfl
      exact absurd word (by decide)

-- Attributes before and after a class is added: a class attribute stands where one stood or is new, it
-- is the only one, and all others are as they were.
structure ClassAdded (before after : List Attribute) (name : Text) : Prop where
  placed : ∃ front added back, after = front ++ added :: back ∧ added.IsClass ∧
    (∀ a ∈ front ++ back, ¬a.IsClass) ∧
    (before = front ++ back ∨ ∃ old, old.IsClass ∧ before = front ++ old :: back)
  classes : classes after = classes before ++ [name]

theorem classes_append (first second : List Attribute) :
    classes (first ++ second) = classes first ++ classes second := by
  rw [classes, List.filter_append, List.flatMap_append, ← classes, ← classes]

theorem classes_of_other (other : ∀ a ∈ attributes, ¬a.IsClass) : classes attributes = [] := by
  rw [classes, List.filter_eq_nil_iff.mpr (by simpa using other), List.flatMap_nil]

theorem classes_cons (a : Attribute) (attributes : List Attribute) :
    classes (a :: attributes) =
      if a.IsClass then blankSeparated a.value ++ classes attributes else classes attributes := by
  by_cases isClass : a.IsClass
  · simp [classes, isClass]
  · simp [classes, isClass]

variable {more above : List Attribute}

theorem addClass?_nowhere (isName : isIdentifier name = true)
    (nowhere : classValue? none (writtenAll attributes) = none) :
    addClass? (writtenAll attributes) name = some (writtenAll (classAttribute isName :: attributes)) := by
  rw [addClass?, nowhere, writtenAll_cons, Attribute.written_append]
  simp [classAttribute]

theorem addClass?_named (isName : isIdentifier name = true) (passed : ∀ a ∈ above, a.Passed)
    (names : b.NamesClass) (more : List Attribute) : addClass? (writtenAll (above ++ b :: more)) name =
      if (blankSeparated b.value).any isIdentifier then none
      else some (writtenAll (above ++ b.withClass isName :: more)) := by
  have ends : '"' ∈ b.written ++ writtenAll more := List.mem_append_left _ b.quote_mem_written
  obtain ⟨last, search⟩ := classValue?_passed passed ends none
  rw [Attribute.classValue?_of_name names, Option.map_some] at search
  rw [writtenAll_append, writtenAll_cons, addClass?, search]
  dsimp only
  congr 2
  rw [writtenAll_append, writtenAll_cons, Attribute.written_append]
  simp [Attribute.withClass]

theorem not_identifier_between (d : Attribute) :
    (blankSeparated (d.gap ++ (d.name ++ ['=']))).any isIdentifier = false := by
  have solid : ∀ c ∈ d.name ++ ['='], isBlank c = false := by
    intro c member
    rcases List.mem_append.mp member with inName | sign
    · exact (d.named.2 c inName).1
    · rw [List.mem_singleton.mp sign]
      rfl
  have word : blankSeparated (d.name ++ ['=']) = [d.name ++ ['=']] :=
    blankSeparated_word (by simp) solid
  have noName : isIdentifier (d.name ++ ['=']) = false := by
    apply Bool.eq_false_iff.mpr
    intro isName
    exact notMem_of_isIdentifier isName (by decide : isWord '=' = false) (by simp)
  rw [blankSeparated_blanks_append d.apart.2, word, List.any_cons, noName]
  rfl

theorem mergeClass_between (d : Attribute) (name : Text) :
    mergeClass (d.gap ++ (d.name ++ ['='])) name = d.gap ++ (d.name ++ ['=']) ++ ' ' :: name := by
  have filled : EndsFilled (d.gap ++ (d.name ++ ['='])) := by
    rw [← List.append_assoc]
    exact endsFilled_concat.mpr rfl
  have present : trim (d.gap ++ (d.name ++ ['='])) ≠ [] := by
    intro empty
    cases blank_of_trim_eq_nil empty '=' (by simp)
  rw [mergeClass, if_neg present, trimEnd_eq_self filled]

theorem addClass?_misread (passed : ∀ a ∈ above, a.Passed) (other : ¬b.NamesClass)
    (opens : b.ValueOpensClass) (name : Text) :
    addClass? (writtenAll (above ++ b :: d :: more)) name =
      some (writtenAll (above ++ [b]) ++
        (d.gap ++ (d.name ++ '=' :: ' ' :: (name ++ '"' :: (d.value ++ '"' :: writtenAll more))))) := by
  have ends : '"' ∈ b.written ++
      (d.gap ++ (d.name ++ ['=']) ++ '"' :: (d.value ++ '"' :: writtenAll more)) :=
    List.mem_append_left _ b.quote_mem_written
  obtain ⟨last, search⟩ := classValue?_passed passed ends none
  rw [Attribute.classValue?_of_value other opens d.quote_notMem_name, Option.map_some] at search
  rw [writtenAll_append, writtenAll_cons, writtenAll_cons, Attribute.written_eq d, addClass?, search]
  simp only [not_identifier_between, mergeClass_between, Bool.false_eq_true, ↓reduceIte]
  simp [writtenAll]

def Identified (attributes : List Attribute) : Prop :=
  ∃ listed ∈ classes attributes, isIdentifier listed = true

def Attribute.ListsIdentifier (a : Attribute) : Prop :=
  (blankSeparated a.value).any isIdentifier = true

instance : DecidablePred Attribute.ListsIdentifier := fun a =>
  inferInstanceAs (Decidable ((blankSeparated a.value).any isIdentifier = true))

-- A class is added to the class attribute and to nothing else, and it is refused just when one of the
-- classes is an identifier.
structure ClassOnly (attributes : List Attribute) (name : Text) : Prop where
  added : ∀ classed, addClass? (writtenAll attributes) name = some classed →
    ∃ after, classed = writtenAll after ∧ ClassAdded attributes after name
  refused : addClass? (writtenAll attributes) name = none ↔ Identified attributes

theorem classOnly_nowhere (isName : isIdentifier name = true)
    (nowhere : classValue? none (writtenAll attributes) = none)
    (others : ∀ a ∈ attributes, ¬a.NamesClass) : ClassOnly attributes name := by
  have noClass : ∀ a ∈ attributes, ¬a.IsClass := fun a member isClass =>
    others a member isClass.namesClass
  refine ⟨fun classed given => ?_, ?_⟩
  · rw [addClass?_nowhere isName nowhere, Option.some.injEq] at given
    refine ⟨_, given.symm, ⟨[], classAttribute isName, attributes, rfl, rfl, noClass, .inl rfl⟩, ?_⟩
    have isClass : (classAttribute isName).IsClass := rfl
    rw [classes_cons, if_pos isClass, classes_of_other noClass, List.append_nil, List.nil_append]
    exact blankSeparated_identifier isName
  · rw [addClass?_nowhere isName nowhere, Identified, classes_of_other noClass]
    simp

theorem classes_between (others : ∀ a ∈ above ++ more, ¬a.IsClass) (isClass : b.IsClass) :
    classes (above ++ b :: more) = blankSeparated b.value := by
  have before : ∀ a ∈ above, ¬a.IsClass := fun a member => others a (List.mem_append_left _ member)
  have behind : ∀ a ∈ more, ¬a.IsClass := fun a member => others a (List.mem_append_right _ member)
  rw [classes_append, classes_cons, if_pos isClass, classes_of_other before, classes_of_other behind,
    List.nil_append, List.append_nil]

theorem classOnly_of_class (isName : isIdentifier name = true) (passed : ∀ a ∈ above, a.Passed)
    (isClass : b.IsClass) (others : ∀ a ∈ above ++ more, ¬a.IsClass) :
    ClassOnly (above ++ b :: more) name := by
  have search := addClass?_named isName passed isClass.namesClass more
  refine ⟨fun classed given => ?_, ?_⟩
  · rw [search] at given
    split at given
    · cases given
    · rw [Option.some.injEq] at given
      refine ⟨_, given.symm,
        ⟨above, b.withClass isName, more, rfl, isClass, others, .inr ⟨b, isClass, rfl⟩⟩, ?_⟩
      have merged : (b.withClass isName).IsClass := isClass
      rw [classes_between others merged, classes_between others isClass]
      exact blankSeparated_mergeClass isName b.value
  · rw [search, Identified, classes_between others isClass, ← List.any_eq_true]
    split
    · simp_all
    · simp_all

theorem classOnly_iff_of_other (isName : isIdentifier name = true) (passed : ∀ a ∈ above, a.Passed)
    (names : b.NamesClass) (other : ¬b.IsClass) :
    ClassOnly (above ++ b :: more) name ↔
      b.ListsIdentifier ∧ Identified (above ++ b :: more) := by
  have search := addClass?_named isName passed names more
  by_cases listed : (blankSeparated b.value).any isIdentifier = true
  · rw [if_pos listed] at search
    constructor
    · exact fun only => ⟨listed, only.refused.mp search⟩
    · rintro ⟨_, identified⟩
      refine ⟨fun classed given => ?_, fun _ => identified, fun _ => search⟩
      rw [search] at given
      cases given
  · rw [if_neg listed] at search
    refine ⟨fun only => ?_, fun both => absurd both.1 listed⟩
    obtain ⟨after, written, given⟩ := only.added _ search
    obtain rfl := writtenAll_inj written
    have merged : ¬(b.withClass isName).IsClass := other
    have same := given.classes
    rw [classes_append, classes_append, classes_cons, classes_cons, if_neg other, if_neg merged] at same
    cases List.self_eq_append_right.mp same

theorem not_classOnly_of_value (passed : ∀ a ∈ above, a.Passed) (other : ¬b.NamesClass)
    (opens : b.ValueOpensClass) (name : Text) : ¬ClassOnly (above ++ b :: d :: more) name := by
  intro only
  obtain ⟨after, written, _⟩ := only.added _ (addClass?_misread passed other opens name)
  obtain ⟨others, _, rest⟩ := exists_rest_of_writtenAll written.symm
  cases others with
  | nil => exact absurd (List.append_eq_nil_iff.mp rest.symm).1 d.apart.1
  | cons e others =>
    rw [writtenAll_cons, Attribute.written_append] at rest
    have here := (e.cut_at_equals ('"' :: (e.value ++ '"' :: writtenAll others))).2
    rw [rest, (d.cut_at_equals _).2, Option.some.injEq, Prod.mk.injEq] at here
    exact absurd (List.cons.inj here.2).1 (by decide)

theorem others_of_distinct (distinct : ((above ++ b :: more).map Attribute.name).Nodup)
    (isClass : b.IsClass) : ∀ a ∈ above ++ more, ¬a.IsClass := by
  rw [List.map_append, List.map_cons, List.perm_middle.nodup_iff, List.nodup_cons,
    ← List.map_append] at distinct
  exact fun a member same => distinct.1 (List.mem_map.mpr ⟨a, member, same.trans isClass.symm⟩)

-- The class goes where it belongs exactly when the search stops at the class attribute or nowhere. There
-- is one exception: stopped at another attribute that has an identifier among its words, it refuses, and
-- that is right when the classes have one, too.
theorem classOnly_iff (isName : isIdentifier name = true)
    (distinct : (attributes.map Attribute.name).Nodup) :
    ClassOnly attributes name ↔ ∀ above b more, StopsAt attributes above b more →
      b.IsClass ∨ b.NamesClass ∧ b.ListsIdentifier ∧ Identified attributes := by
  constructor
  · rintro only above b more ⟨rfl, passed, names | ⟨opens, present⟩⟩
    · by_cases isClass : b.IsClass
      · exact .inl isClass
      · exact .inr ⟨names, (classOnly_iff_of_other isName passed names isClass).mp only⟩
    · by_cases names : b.NamesClass
      · by_cases isClass : b.IsClass
        · exact .inl isClass
        · exact .inr ⟨names, (classOnly_iff_of_other isName passed names isClass).mp only⟩
      · obtain ⟨d, more, rfl⟩ := List.exists_cons_of_ne_nil present
        exact absurd only (not_classOnly_of_value passed names opens name)
  · intro stopped
    rcases stopsAt_cases attributes with ⟨nowhere, others⟩ | ⟨above, b, more, stops⟩
    · exact classOnly_nowhere isName (nowhere none) others
    · have right := stopped above b more stops
      obtain ⟨rfl, passed, _⟩ := stops
      rcases right with isClass | ⟨names, listed, identified⟩
      · exact classOnly_of_class isName passed isClass (others_of_distinct distinct isClass)
      · by_cases isClass : b.IsClass
        · exact classOnly_of_class isName passed isClass (others_of_distinct distinct isClass)
        · exact (classOnly_iff_of_other isName passed names isClass).mpr ⟨listed, identified⟩

structure Tag where
  indent : Text
  letter : Char
  chars : Text
  attributes : List Attribute
  gap : Text
  slash : Bool
  after : Text
  blank : ∀ c ∈ indent, isBlank c = true
  begins : isLetter letter = true
  named : ∀ c ∈ chars, isTagNameChar c = true
  spaced : ∀ c ∈ gap, isBlank c = true

namespace Tag

def opening (tag : Tag) : Text := tag.indent ++ '<' :: tag.letter :: tag.chars

def left (tag : Tag) : Text := tag.gap ++ if tag.slash then ['/'] else []

def ending (tag : Tag) : Text := tag.left ++ '>' :: tag.after

def written (tag : Tag) : Text := tag.opening ++ (writtenAll tag.attributes ++ tag.ending)

def withAttributes (tag : Tag) (attributes : List Attribute) : Tag := { tag with attributes }

theorem isTagNameChar_of_isBlank (blank : isBlank c = true) : isTagNameChar c = false := by
  have noDash : c ≠ '-' := by
    rintro rfl
    cases blank
  simp [isTagNameChar, isWord_of_isBlank blank, noDash]

theorem stop (tag : Tag) (after : Text) :
    ∀ c ∈ (writtenAll tag.attributes ++ (tag.left ++ '>' :: after)).head?, isTagNameChar c = false := by
  intro c first
  cases listed : tag.attributes with
  | nil =>
    cases gap : tag.gap with
    | nil =>
      rw [listed, left, gap] at first
      simp only [writtenAll, List.flatMap_nil, List.nil_append] at first
      split at first
      all_goals
        cases first
        decide
    | cons d more =>
      rw [listed, left, gap] at first
      cases first
      exact isTagNameChar_of_isBlank (tag.spaced c (gap ▸ List.mem_cons_self))
  | cons a rest =>
    obtain ⟨d, gap, cut⟩ := List.exists_cons_of_ne_nil a.apart.1
    rw [listed, writtenAll_cons, Attribute.written, cut] at first
    cases first
    exact isTagNameChar_of_isBlank (a.apart.2 c (cut ▸ List.mem_cons_self))

theorem angle_notMem (attributes : List Attribute) : '>' ∉ writtenAll attributes := by
  intro member
  obtain ⟨a, _, inside⟩ := List.mem_flatMap.mp member
  simp only [Attribute.written, List.mem_append, List.mem_cons, List.not_mem_nil, or_false] at inside
  rcases inside with gap | inName | equals | quote | value | quote
  · cases a.apart.2 '>' gap
  · exact (a.named.2 '>' inName).2.2.2 rfl
  · cases equals
  · cases quote
  · exact (a.quoted '>' value).2 rfl
  · cases quote

theorem getLast?_writtenAll {attributes : List Attribute} (present : attributes ≠ []) :
    (writtenAll attributes).getLast? = some '"' := by
  obtain ⟨front, a, rfl⟩ := (List.eq_nil_or_concat attributes).resolve_left present
  have shape : writtenAll (front.concat a) =
      (writtenAll front ++ (a.gap ++ (a.name ++ '=' :: '"' :: a.value))) ++ ['"'] := by
    simp [writtenAll, Attribute.written]
  rw [shape, List.getLast?_concat]

theorem closes (tag : Tag) : Closes (writtenAll tag.attributes) tag.left := by
  have quote : ∀ c ∈ (writtenAll tag.attributes).getLast?, c = '"' := by
    intro c last
    by_cases none : tag.attributes = []
    · rw [none] at last
      cases last
    · rw [getLast?_writtenAll none] at last
      cases last
      rfl
  refine ⟨fun c last => quote c last ▸ rfl, tag.gap, tag.spaced, ?_⟩
  rw [left]
  split
  · exact .inl rfl
  · refine .inr ⟨List.append_nil _, fun slash => ?_⟩
    by_cases spaced : tag.gap = []
    · rw [spaced, List.append_nil] at slash
      cases quote '/' slash
    · rw [List.getLast?_append_of_ne_nil _ spaced] at slash
      cases tag.spaced '/' (List.mem_of_getLast? slash)

theorem openTag?_written (tag : Tag) (after : Text) :
    openTag? (tag.opening ++ (writtenAll tag.attributes ++ (tag.left ++ '>' :: after))) =
      some ⟨tag.opening, writtenAll tag.attributes, tag.left ++ '>' :: after⟩ := by
  have named : ∃ indent c chars, (∀ d ∈ indent, isBlank d = true) ∧ isLetter c = true ∧
      (∀ d ∈ chars, isTagNameChar d = true) ∧ tag.opening = indent ++ '<' :: c :: chars :=
    ⟨tag.indent, tag.letter, tag.chars, tag.blank, tag.begins, tag.named, rfl⟩
  have outside : '>' ∉ tag.left := by
    rw [left, List.mem_append, not_or]
    refine ⟨fun member => ?_, ?_⟩
    · cases tag.spaced '>' member
    · split
      · decide
      · exact List.not_mem_nil
  exact openTag?_eq_some_iff.mpr ⟨rfl, named, tag.stop after, angle_notMem _, tag.left, after, tag.closes,
    outside, rfl⟩

theorem annotate?_written (tag : Tag) (name : Text) :
    ((annotate? (dropReturn tag.written) name).map fun annotated => annotated ++ finalReturn tag.written) =
      (addClass? (writtenAll tag.attributes) name).map fun classed =>
        tag.opening ++ (classed ++ tag.ending) := by
  -- The return at the end of the line belongs to what follows the tag.
  have shape : ∀ after, tag.opening ++ (writtenAll tag.attributes ++ (tag.left ++ '>' :: after)) =
      tag.opening ++ (writtenAll tag.attributes ++ tag.left) ++ '>' :: after := by
    intro after
    simp
  obtain ⟨dropped, final⟩ := returns_append_cons (by decide : '>' ≠ '\r')
    (tag.opening ++ (writtenAll tag.attributes ++ tag.left)) tag.after
  rw [← shape, ← shape] at dropped
  rw [← shape] at final
  rw [written, ending, dropped, final, annotate?, openTag?_written]
  dsimp only
  rw [Option.map_map]
  refine congrArg (Option.map · _) (funext fun classed => ?_)
  simp [dropReturn_append_finalReturn]

end Tag

variable {source changed : Text} {limit number : Nat} {tag : Tag}

theorem injectClass?_tag (takes : TakesClass source limit number)
    (there : lineAt? (splitLines source) number = some tag.written) (name : Text) :
    injectClass? source limit name = (addClass? (writtenAll tag.attributes) name).map fun classed =>
      joinLines (replaceLine (splitLines source) number (tag.opening ++ (classed ++ tag.ending))) := by
  have line := congrArg (Option.map fun new =>
    joinLines (replaceLine (splitLines source) number new)) (tag.annotate?_written name)
  rw [Option.map_map, Option.map_map] at line
  rw [injectClass?_eq takes there]
  exact line

-- What giving a class to a line with a tag should do: the line is the tag with the class added, and a tag
-- that has an identifier among its classes is refused.
structure TagClassed (source : Text) (limit number : Nat) (tag : Tag) (name : Text) : Prop where
  added : ∀ changed, injectClass? source limit name = some changed → ∃ after,
    splitLines changed = replaceLine (splitLines source) number (tag.withAttributes after).written ∧
      ClassAdded tag.attributes after name
  refused : injectClass? source limit name = none ↔ Identified tag.attributes

theorem tagClassed_iff_classOnly (isName : isIdentifier name = true)
    (takes : TakesClass source limit number)
    (there : lineAt? (splitLines source) number = some tag.written) :
    TagClassed source limit number tag name ↔ ClassOnly tag.attributes name := by
  have given := injectClass?_tag takes there name
  have plain : '\n' ∉ tag.written := by
    obtain ⟨above, below, cut, _⟩ := exists_cut_of_lineAt? there
    exact newline_notMem_of_mem_splitLines (t := source) (by simp [cut])
  simp only [Tag.written, List.mem_append, not_or] at plain
  have lines : ∀ classed, addClass? (writtenAll tag.attributes) name = some classed →
      splitLines (joinLines
          (replaceLine (splitLines source) number (tag.opening ++ (classed ++ tag.ending)))) =
        replaceLine (splitLines source) number (tag.opening ++ (classed ++ tag.ending)) := by
    intro classed added
    refine LineReplaced.splitLines ⟨there, rfl⟩ fun newline => ?_
    rcases List.mem_append.mp newline with opening | behind
    · exact plain.1 opening
    rcases List.mem_append.mp behind with inClassed | ending
    · rcases mem_of_mem_addClass? added inClassed with old | start | inName
      · exact plain.2.1 old
      · exact absurd start (by decide)
      · exact notMem_of_isIdentifier isName (by decide) inName
    · exact plain.2.2 ending
  have refused : injectClass? source limit name = none ↔
      addClass? (writtenAll tag.attributes) name = none := by
    rw [given, Option.map_eq_none_iff]
  constructor
  · intro classed
    refine ⟨fun text added => ?_, refused.symm.trans classed.refused⟩
    rw [added, Option.map_some] at given
    obtain ⟨after, same, only⟩ := classed.added _ given
    rw [lines text added] at same
    have here : lineAt?
        (replaceLine (splitLines source) number (tag.opening ++ (text ++ tag.ending))) number =
        some (tag.opening ++ (text ++ tag.ending)) := lineAt?_replaceLine there
    rw [same, lineAt?_replaceLine there, Option.some.injEq] at here
    refine ⟨after, ?_, only⟩
    exact (List.append_cancel_right (List.append_cancel_left here)).symm
  · intro only
    refine ⟨fun changed injected => ?_, refused.trans only.refused⟩
    rw [given] at injected
    obtain ⟨classed, added, rfl⟩ := Option.map_eq_some_iff.mp injected
    obtain ⟨after, rfl, placed⟩ := only.added classed added
    exact ⟨after, lines _ added, placed⟩

-- On a line with a tag a class goes to the class attribute, and nothing else of the line changes, exactly
-- when the search for the attribute stops there or nowhere. A name that ends in the word `class` misleads
-- it, and so does a value that ends like the start of a class attribute.
theorem tagClassed_iff (isName : isIdentifier name = true) (takes : TakesClass source limit number)
    (there : lineAt? (splitLines source) number = some tag.written)
    (distinct : (tag.attributes.map Attribute.name).Nodup) :
    TagClassed source limit number tag name ↔ ∀ above b more, StopsAt tag.attributes above b more →
      b.IsClass ∨ b.NamesClass ∧ b.ListsIdentifier ∧ Identified tag.attributes :=
  (tagClassed_iff_classOnly isName takes there).trans (classOnly_iff isName distinct)

def leadTag : Tag where
  indent := []
  letter := 'p'
  chars := []
  attributes :=
    [⟨[' '], "class".toList, "lead".toList, by decide, by decide, by decide⟩,
      ⟨[' '], "id".toList, "x".toList, by decide, by decide, by decide⟩]
  gap := [' ']
  slash := true
  after := "\r".toList
  blank := by decide
  begins := by decide
  named := by decide
  spaced := by decide

def leadSource : Text := "--- core/card\n<p class=\"lead\" id=\"x\" />\r\n".toList

theorem tagClassed_iff_leadTag :
    isIdentifier "s1".toList = true ∧ TakesClass leadSource 3 2 ∧
      lineAt? (splitLines leadSource) 2 = some leadTag.written ∧
      (leadTag.attributes.map Attribute.name).Nodup ∧ TagClassed leadSource 3 2 leadTag "s1".toList := by
  have isName : isIdentifier "s1".toList = true := by decide
  have takes : TakesClass leadSource 3 2 := ⟨by decide, by decide⟩
  have there : lineAt? (splitLines leadSource) 2 = some leadTag.written := by decide
  have distinct : (leadTag.attributes.map Attribute.name).Nodup := by decide
  refine ⟨isName, takes, there, distinct, (tagClassed_iff isName takes there distinct).mpr ?_⟩
  rintro above b more ⟨whole, passed, _⟩
  cases above with
  | nil =>
    cases whole
    exact .inl rfl
  | cons a above =>
    obtain ⟨rfl, _⟩ := List.cons.inj whole
    exact absurd ⟨[], rfl, by simp⟩ (passed _ List.mem_cons_self).1

def dataTag : Tag where
  indent := []
  letter := 'p'
  chars := []
  attributes := [⟨[' '], "data-class".toList, "lead".toList, by decide, by decide, by decide⟩]
  gap := []
  slash := false
  after := "Hi</p>".toList
  blank := by decide
  begins := by decide
  named := by decide
  spaced := by decide

def dataSource : Text := "<p data-class=\"lead\">Hi</p>".toList

theorem dataTag_misread :
    isIdentifier "s1".toList = true ∧ TakesClass dataSource 1 1 ∧
      lineAt? (splitLines dataSource) 1 = some dataTag.written ∧
      (dataTag.attributes.map Attribute.name).Nodup ∧
      injectClass? dataSource 1 "s1".toList = some "<p data-class=\"lead s1\">Hi</p>".toList ∧
      ¬TagClassed dataSource 1 1 dataTag "s1".toList := by
  have isName : isIdentifier "s1".toList = true := by decide
  have takes : TakesClass dataSource 1 1 := ⟨by decide, by decide⟩
  have there : lineAt? (splitLines dataSource) 1 = some dataTag.written := by decide
  have injected : injectClass? dataSource 1 "s1".toList =
      some "<p data-class=\"lead s1\">Hi</p>".toList := by decide
  refine ⟨isName, takes, there, by decide, injected, fun classed => ?_⟩
  have only := (tagClassed_iff_classOnly isName takes there).mp classed
  have names : (⟨[' '], "data-class".toList, "lead".toList, by decide, by decide, by decide⟩ :
      Attribute).NamesClass := ⟨"data-".toList, rfl, by decide⟩
  have noneAbove : ∀ a ∈ ([] : List Attribute), a.Passed := by simp
  have right := (classOnly_iff_of_other isName noneAbove names (by decide)).mp only
  exact absurd right.1 (by decide)

end BlockMarkup.Naming
