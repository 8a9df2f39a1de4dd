import BlockMarkup.Proofs.Identifier
import BlockMarkup.Proofs.Naming

namespace BlockMarkup.Naming

open Identifier

variable {t line attributes classed annotated source changed : Text} {before : Option Char} {n : Nat}

theorem isTagNameChar_of_isWord {c : Char} (word : isWord c = true) : isTagNameChar c = true := by
  simp [isTagNameChar, word]

structure ClassValue.Cuts (found : ClassValue) (t : Text) : Prop where
  whole : t = found.start ++ (found.value ++ found.rest)
  opened : ∃ front, found.start = front ++ ['"']
  closed : ∃ after, found.rest = '"' :: after

theorem classHere?_eq_some {found : ClassValue} (here : classHere? t = some found) : found.Cuts t := by
  unfold classHere? at here
  split at here
  · cases here
  rename_i afterName name
  split at here
  · rename_i afterEquals equals
    split at here
    · rename_i quoted quote
      split at here
      · cases here
      · rename_i value after split
        cases here
        obtain ⟨beforeEquals, cutEquals, _⟩ := exists_trimStart afterName
        obtain ⟨beforeQuote, cutQuote, _⟩ := exists_trimStart afterEquals
        rw [equals] at cutEquals
        rw [quote] at cutQuote
        obtain ⟨front, whole⟩ : ∃ front, t = (front ++ ['"']) ++ quoted := by
          refine ⟨"class".toList ++ (beforeEquals ++ '=' :: beforeQuote), ?_⟩
          rw [dropStart?_eq_some_iff.mp name, cutEquals, cutQuote]
          simp
        have start : t.take (t.length - quoted.length) = front ++ ['"'] := by
          rw [whole, List.length_append, Nat.add_sub_cancel, List.take_left]
        obtain ⟨inside, _⟩ := splitAtFirst?_eq_some_iff.mp split
        refine ⟨?_, ⟨front, start⟩, ⟨after, rfl⟩⟩
        rw [start, ← inside, whole]
    · cases here
  · cases here

theorem classValue?_eq_some {found : ClassValue} (read : classValue? before t = some found) :
    found.Cuts t := by
  induction t generalizing before found with
  | nil => cases read
  | cons c rest ih =>
    rw [classValue?] at read
    split at read
    · rename_i here
      cases read
      split at here
      · cases here
      · exact classHere?_eq_some here
    · obtain ⟨later, there, rfl⟩ := Option.map_eq_some_iff.mp read
      obtain ⟨whole, ⟨front, opened⟩, closed⟩ := ih there
      exact ⟨by simp [whole], ⟨c :: front, by simp [opened]⟩, closed⟩

-- What follows the attributes of a tag are blanks, and after these a slash or nothing.
theorem attributesOf_cut (inside : Text) :
    ∃ left, inside = attributesOf inside ++ left ∧
      inside.drop (attributesOf inside).length = left ∧ StartsApart left := by
  obtain ⟨kept, slash, whole, attributes, apart⟩ : ∃ kept slash, inside = kept ++ slash ∧
      attributesOf inside = trimEnd kept ∧ StartsApart slash := by
    unfold attributesOf
    split
    · rename_i ends
      obtain ⟨kept, rfl⟩ := List.getLast?_eq_some_iff.mp ends
      exact ⟨kept, ['/'], rfl, by rw [List.dropLast_concat], by decide⟩
    · exact ⟨inside, [], (List.append_nil inside).symm, rfl, startsApart_nil⟩
  obtain ⟨blanks, cut, blank⟩ := exists_trimEnd kept
  have rest : inside = attributesOf inside ++ (blanks ++ slash) := by
    rw [attributes, ← List.append_assoc, ← cut, whole]
  have dropped : (attributesOf inside ++ (blanks ++ slash)).drop (attributesOf inside).length =
      blanks ++ slash := List.drop_left
  rw [← rest] at dropped
  exact ⟨blanks ++ slash, rest, dropped, (StartsApart.of_blanks blank).append apart⟩

theorem startsApart_dropWhile (t : Text) : StartsApart (t.dropWhile isTagNameChar) := by
  intro c first
  have stops : isTagNameChar c = false := by
    simpa [Option.mem_def.mp first] using List.head?_dropWhile_not isTagNameChar t
  apply Bool.eq_false_iff.mpr
  intro word
  rw [isTagNameChar_of_isWord word] at stops
  cases stops

structure OpenTag.Cuts (tag : OpenTag) (line : Text) : Prop where
  whole : line = tag.name ++ (tag.attributes ++ tag.close)
  attributes : StartsApart tag.attributes
  close : StartsApart tag.close

theorem openTag?_eq_some {tag : OpenTag} (read : openTag? line = some tag) : tag.Cuts line := by
  unfold openTag? at read
  split at read
  · rename_i c rest angle
    split at read
    · split at read
      · cases read
      · rename_i inside after split
        cases read
        obtain ⟨named, _⟩ := splitAtFirst?_eq_some_iff.mp split
        obtain ⟨left, cut, dropped, apart⟩ := attributesOf_cut inside
        have blanks : line.takeWhile isBlank ++ line.dropWhile isBlank = line :=
          List.takeWhile_append_dropWhile
        have name : rest.takeWhile isTagNameChar ++ rest.dropWhile isTagNameChar = rest :=
          List.takeWhile_append_dropWhile
        have behind : rest.dropWhile isTagNameChar =
            attributesOf inside ++ (left ++ '>' :: after) := by
          rw [named, ← List.append_assoc, ← cut]
        refine ⟨?_, ?_, ?_⟩
        · dsimp only
          rw [dropped, List.append_assoc, List.cons_append, List.cons_append, ← behind, name, ← angle,
            blanks]
        · intro d first
          apply startsApart_dropWhile rest
          rw [behind, List.head?_append, Option.mem_def.mp first]
          rfl
        · dsimp only
          rw [dropped]
          have angleApart : StartsApart ['>'] := by decide
          exact apart.append (startsApart_cons.mpr (startsApart_cons.mp angleApart))
    · cases read
  · cases read

theorem addClass?_gains (added : addClass? attributes (text n) = some classed)
    (apart : StartsApart attributes) (fits : n ≤ maxWord) : Gains n attributes classed := by
  unfold addClass? at added
  split at added
  · cases added
    have wraps : Wraps " class=\"".toList ['"'] :=
      wraps_of_mark " class=".toList '"' ['"'] (by decide)
    have gains : Gains n ([] ++ ([] ++ attributes))
        ([] ++ (" class=\"".toList ++ (text n ++ ['"']) ++ attributes)) :=
      wraps.gains fits List.not_mem_nil startsApart_nil apart []
    simpa using gains
  · rename_i found read
    obtain ⟨whole, ⟨front, opened⟩, ⟨after, closed⟩⟩ := classValue?_eq_some read
    split at added
    · cases added
    cases added
    have quote : isWord '"' = false := by decide
    have restApart : StartsApart found.rest := closed ▸ startsApart_cons.mpr quote
    unfold mergeClass
    split
    · rename_i empty
      have wraps : Wraps ['"'] [] := wraps_of_mark [] '"' [] (by decide)
      have absent : 's' ∉ '"' :: found.value := by
        intro member
        rcases List.mem_cons.mp member with quote | inside
        · cases quote
        · cases blank_of_trim_eq_nil empty 's' inside
      have gains := wraps.gains fits absent (startsApart_cons.mpr quote) restApart front
      simpa [whole, opened] using gains
    · have wraps : Wraps [' '] [] := wraps_of_mark [] ' ' [] (by decide)
      have inside := wraps.gains_behind fits restApart found.value
      have gains : Gains n (found.start ++ (found.value ++ found.rest ++ [])) _ :=
        inside.within startsApart_nil found.start
      simpa [whole] using gains

theorem annotate?_gains (written : annotate? line (text n) = some annotated) (fits : n ≤ maxWord) :
    Gains n line annotated := by
  unfold annotate? at written
  split at written
  · rename_i tag read
    obtain ⟨classed, added, rfl⟩ := Option.map_eq_some_iff.mp written
    obtain ⟨whole, attributes, close⟩ := openTag?_eq_some read
    have gains := (addClass?_gains added attributes fits).within close tag.name
    rwa [← whole, ← List.append_assoc] at gains
  · split at written
    · cases written
    · cases written
      have wraps : Wraps " \x7b.".toList ['\x7d'] :=
        wraps_of_mark " \x7b".toList '.' ['\x7d'] (by decide)
      have gains : Gains n (line ++ []) _ := wraps.gains_behind fits startsApart_nil line
      simpa using gains

theorem startsApart_finalReturn (line : Text) : StartsApart (finalReturn line) :=
  .of_blanks fun _ => isBlank_of_mem_finalReturn

-- What a line gains its text gains.
theorem gains_of_line {old new : Text} {number : Nat}
    (replaced : LineReplaced source changed number old new) (gains : Gains n old new) :
    Gains n source changed := by
  obtain ⟨above, below, whole, place⟩ := exists_cut_of_lineAt? replaced.there
  obtain ⟨front, back, newline, cut⟩ := joinLines_cut above below
  have before : source = front ++ (old ++ back) := by
    rw [← joinLines_splitLines source, whole, cut]
  have after : changed = front ++ (new ++ back) := by
    rw [replaced.text, whole, place, ← cut]
    simp [replaceLine]
  have apart : StartsApart back := by
    intro c first
    rw [newline c first]
    decide
  rw [before, after]
  exact gains.within apart front

theorem injectLabel?_gains {number : Nat} (injected : injectLabel? source number (text n) = some changed)
    (fits : n ≤ maxWord) : Gains n source changed := by
  obtain ⟨old, blockType, _, _, replaced⟩ := injectLabel?_eq_some injected
  have wraps : Wraps ": ".toList [] := wraps_of_mark [':'] ' ' [] (by decide)
  have gains := wraps.gains_behind fits (startsApart_finalReturn old) (dropReturn old)
  rw [dropReturn_append_finalReturn] at gains
  exact gains_of_line replaced (by simpa using gains)

theorem injectClass?_gains {number : Nat} (injected : injectClass? source number (text n) = some changed)
    (fits : n ≤ maxWord) : Gains n source changed := by
  obtain ⟨line, old, annotated, _, _, written, replaced⟩ := injectClass?_eq_some injected
  have inside := annotate?_gains written fits
  have gains : Gains n ([] ++ (dropReturn old ++ finalReturn old)) _ :=
    inside.within (startsApart_finalReturn old) []
  rw [List.nil_append, dropReturn_append_finalReturn] at gains
  exact gains_of_line replaced gains

end BlockMarkup.Naming
