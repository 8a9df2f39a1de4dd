import BlockMarkup.Proofs.Annotation

namespace BlockMarkup

variable {t line front back start name value : Text} {c : Char}

namespace Identifier

theorem isWord_of_isIdentifier (isName : isIdentifier name = true) : ∀ c ∈ name, isWord c = true := by
  unfold isIdentifier at isName
  split at isName
  · rw [Bool.and_eq_true, List.all_eq_true] at isName
    intro c member
    rcases List.mem_cons.mp member with rfl | digit
    · decide
    · exact isWord_of_isDecimal (isName.2 c digit)
  · cases isName

theorem ne_nil_of_isIdentifier (isName : isIdentifier name = true) : name ≠ [] := by
  rintro rfl
  cases isName

theorem notMem_of_isIdentifier (isName : isIdentifier name = true) (apart : isWord c = false) :
    c ∉ name := by
  intro member
  rw [isWord_of_isIdentifier isName c member] at apart
  cases apart

theorem blankSeparated_identifier (isName : isIdentifier name = true) : blankSeparated name = [name] :=
  blankSeparated_word (ne_nil_of_isIdentifier isName) fun c member =>
    isBlank_of_isWord (isWord_of_isIdentifier isName c member)

end Identifier

namespace Naming

open Identifier

theorem blankSeparated_mergeClass (isName : isIdentifier name = true) (value : Text) :
    blankSeparated (mergeClass value name) = blankSeparated value ++ [name] := by
  rw [mergeClass]
  split
  · rename_i empty
    rw [blankSeparated_blanks (blank_of_trim_eq_nil empty), blankSeparated_identifier isName,
      List.nil_append]
  · rw [blankSeparated_append (by decide), blankSeparated_trimEnd, blankSeparated_identifier isName]

theorem mem_of_mem_mergeClass (member : c ∈ mergeClass value name) : c ∈ value ∨ c = ' ' ∨ c ∈ name := by
  rw [mergeClass] at member
  split at member
  · exact .inr (.inr member)
  · rcases List.mem_append.mp member with before | added
    · exact .inl ((prefix_trimEnd value).subset before)
    · exact .inr (List.mem_cons.mp added)

def OpensClass (start : Text) : Prop :=
  ∃ before after, (∀ c ∈ before, isBlank c = true) ∧ (∀ c ∈ after, isBlank c = true) ∧
    start = "class".toList ++ (before ++ '=' :: (after ++ ['"']))

theorem OpensClass.quote (opens : OpensClass start) : ∃ front, start = front ++ ['"'] ∧ '"' ∉ front := by
  obtain ⟨before, after, blankBefore, blankAfter, rfl⟩ := opens
  refine ⟨"class".toList ++ (before ++ '=' :: after), by simp, fun member => ?_⟩
  simp only [List.mem_append, List.mem_cons] at member
  rcases member with inName | inBefore | equals | inAfter
  · exact absurd inName (by decide)
  · cases blankBefore '"' inBefore
  · cases equals
  · cases blankAfter '"' inAfter

theorem classHere?_eq_some_iff {found : ClassValue} : classHere? t = some found ↔
    OpensClass found.start ∧ '"' ∉ found.value ∧ (∃ after, found.rest = '"' :: after) ∧
      t = found.start ++ (found.value ++ found.rest) := by
  constructor
  · intro here
    have cuts := classHere?_eq_some here
    unfold classHere? at here
    split at here
    · cases here
    rename_i afterName named
    split at here
    · rename_i afterEquals equals
      split at here
      · rename_i quoted quote
        split at here
        · cases here
        · rename_i inside after split
          obtain ⟨before, cutBefore, blankBefore⟩ := exists_trimStart afterName
          obtain ⟨behind, cutBehind, blankBehind⟩ := exists_trimStart afterEquals
          rw [equals] at cutBefore
          rw [quote] at cutBehind
          have whole : t = ("class".toList ++ (before ++ '=' :: (behind ++ ['"']))) ++ quoted := by
            rw [dropStart?_eq_some_iff.mp named, cutBefore, cutBehind]
            simp
          have start : t.take (t.length - quoted.length) =
              "class".toList ++ (before ++ '=' :: (behind ++ ['"'])) := by
            rw [whole, List.length_append, Nat.add_sub_cancel, List.take_left]
          cases here
          exact ⟨⟨before, behind, blankBefore, blankBehind, start⟩, (splitAtFirst?_eq_some_iff.mp split).2,
            cuts.closed, cuts.whole⟩
      · cases here
    · cases here
  · obtain ⟨start, value, rest⟩ := found
    rintro ⟨⟨before, behind, blankBefore, blankBehind, rfl⟩, noQuote, ⟨after, rfl⟩, rfl⟩
    have named : dropStart? "class".toList ("class".toList ++ (before ++ '=' :: (behind ++ ['"'])) ++
        (value ++ '"' :: after)) = some (before ++ '=' :: (behind ++ '"' :: (value ++ '"' :: after))) :=
      dropStart?_eq_some_iff.mpr (by simp)
    have equals : trimStart (before ++ '=' :: (behind ++ '"' :: (value ++ '"' :: after))) =
        '=' :: (behind ++ '"' :: (value ++ '"' :: after)) := by
      rw [trimStart_append_blanks blankBefore, trimStart_eq_self (startsFilled_cons.mpr rfl)]
    have quote : trimStart (behind ++ '"' :: (value ++ '"' :: after)) =
        '"' :: (value ++ '"' :: after) := by
      rw [trimStart_append_blanks blankBehind, trimStart_eq_self (startsFilled_cons.mpr rfl)]
    have split : splitAtFirst? '"' (value ++ '"' :: after) = some (value, after) :=
      splitAtFirst?_eq_some_iff.mpr ⟨rfl, noQuote⟩
    unfold classHere?
    simp only [named, equals, quote, split]
    rw [List.length_append, Nat.add_sub_cancel, List.take_left]

-- Whether a class attribute begins is settled with the first quote. It needs one more to end.
theorem classHere?_isSome_append {other : Text} (quoted : '"' ∈ front) (ends : '"' ∈ other)
    (here : (classHere? (front ++ back)).isSome = true) : (classHere? (front ++ other)).isSome = true := by
  obtain ⟨found, read⟩ := Option.isSome_iff_exists.mp here
  obtain ⟨opens, _, _, whole⟩ := classHere?_eq_some_iff.mp read
  obtain ⟨before, start, absent⟩ := opens.quote
  rw [start] at whole
  obtain ⟨rest, rfl, _⟩ := exists_behind_mark absent quoted whole
  obtain ⟨value, after, split, noQuote⟩ :=
    List.eq_append_cons_of_mem (List.mem_append_right rest ends)
  have again : classHere? ((before ++ ['"']) ++ rest ++ other) =
      some ⟨before ++ ['"'], value, '"' :: after⟩ := by
    refine classHere?_eq_some_iff.mpr ⟨start ▸ opens, noQuote, ⟨after, rfl⟩, ?_⟩
    rw [← split, List.append_assoc]
  rw [again, Option.isSome_some]

theorem OpensClass.mem_quote (opens : OpensClass start) : '"' ∈ start := by
  obtain ⟨front, rfl, _⟩ := opens.quote
  exact List.mem_append_right front (List.mem_singleton_self '"')

theorem classValue?_here {before : Option Char} {found : ClassValue} (free : before.any isWord = false)
    (here : classHere? t = some found) : classValue? before t = some found := by
  cases t with
  | nil => cases here
  | cons c rest => rw [classValue?, if_neg (by simp [free]), here]

theorem classValue?_past {before : Option Char} {rest : Text}
    (none : before.any isWord = true ∨ classHere? (c :: rest) = none) :
    classValue? before (c :: rest) =
      (classValue? (some c) rest).map fun found => { found with start := c :: found.start } := by
  rw [classValue?]
  rcases none with joined | absent
  · rw [if_pos joined]
  · rw [absent, ite_self]

theorem classValue?_opens {before : Option Char} {found : ClassValue}
    (read : classValue? before t = some found) :
    '"' ∈ found.start ∧ '"' ∉ found.value ∧ ∃ after, found.rest = '"' :: after := by
  induction t generalizing before found with
  | nil => cases read
  | cons c rest ih =>
    rw [classValue?] at read
    split at read
    · rename_i here
      cases read
      split at here
      · cases here
      · obtain ⟨opens, noQuote, closed, _⟩ := classHere?_eq_some_iff.mp here
        exact ⟨opens.mem_quote, noQuote, closed⟩
    · obtain ⟨later, there, rfl⟩ := Option.map_eq_some_iff.mp read
      obtain ⟨opened, noQuote, closed⟩ := ih there
      exact ⟨List.mem_cons_of_mem c opened, noQuote, closed⟩

theorem classValue?_revalued {before : Option Char} {found : ClassValue}
    (read : classValue? before t = some found) (noQuote : '"' ∉ value) :
    classValue? before (found.start ++ (value ++ found.rest)) = some { found with value := value } := by
  induction t generalizing before found with
  | nil => cases read
  | cons c rest ih =>
    by_cases here : before.any isWord = false ∧ (classHere? (c :: rest)).isSome = true
    · obtain ⟨free, present⟩ := here
      obtain ⟨first, there⟩ := Option.isSome_iff_exists.mp present
      rw [classValue?_here free there, Option.some.injEq] at read
      subst read
      obtain ⟨opens, _, closed, _⟩ := classHere?_eq_some_iff.mp there
      exact classValue?_here free (classHere?_eq_some_iff.mpr ⟨opens, noQuote, closed, rfl⟩)
    · have past : before.any isWord = true ∨ classHere? (c :: rest) = none := by
        rw [not_and, Bool.not_eq_true, Option.isSome_eq_false_iff, Option.isNone_iff_eq_none] at here
        cases joined : before.any isWord with
        | true => exact .inl rfl
        | false => exact .inr (here joined)
      rw [classValue?_past past] at read
      obtain ⟨later, there, rfl⟩ := Option.map_eq_some_iff.mp read
      have cut := (classValue?_eq_some there).whole
      obtain ⟨opened, _, after, closed⟩ := classValue?_opens there
      have pastAgain : before.any isWord = true ∨
          classHere? (c :: (later.start ++ (value ++ later.rest))) = none := by
        refine past.imp_right fun absent => ?_
        rw [← Option.not_isSome_iff_eq_none]
        intro present
        have quoted : '"' ∈ c :: later.start := List.mem_cons_of_mem c opened
        have ends : '"' ∈ later.value ++ later.rest := by simp [closed]
        have back := classHere?_isSome_append quoted ends present
        rw [List.cons_append, ← cut, absent] at back
        cases back
      dsimp only
      rw [List.cons_append, classValue?_past pastAgain, ih there]
      rfl

-- What follows the attributes of a tag up to its angle: blanks, and after these a slash or nothing. A
-- slash right behind the attributes is none of them.
structure Closes (attributes left : Text) : Prop where
  filled : EndsFilled attributes
  ends : ∃ blanks, (∀ c ∈ blanks, isBlank c = true) ∧
    (left = blanks ++ ['/'] ∨ left = blanks ∧ (attributes ++ blanks).getLast? ≠ some '/')

theorem attributesOf_eq_iff {attributes left : Text} :
    attributesOf (attributes ++ left) = attributes ↔ Closes attributes left := by
  rw [attributesOf]
  constructor
  · intro read
    have filled : EndsFilled attributes := read ▸ endsFilled_trimEnd _
    split at read
    · rename_i slash
      obtain ⟨kept, cut⟩ := List.getLast?_eq_some_iff.mp slash
      obtain ⟨blanks, whole, blank⟩ := exists_trimEnd kept
      rw [cut, List.dropLast_concat] at read
      rw [whole, read, List.append_assoc] at cut
      exact ⟨filled, blanks, blank, .inl (List.append_cancel_left cut)⟩
    · rename_i noSlash
      obtain ⟨blanks, whole, blank⟩ := exists_trimEnd (attributes ++ left)
      rw [read] at whole
      obtain rfl := List.append_cancel_left whole
      exact ⟨filled, left, blank, .inr ⟨rfl, noSlash⟩⟩
  · rintro ⟨filled, blanks, blank, rfl | ⟨rfl, noSlash⟩⟩
    · rw [← List.append_assoc, if_pos (by simp), List.dropLast_concat, trimEnd_of_blanks filled blank]
    · rw [if_neg noSlash, trimEnd_of_blanks filled blank]

-- Other attributes are closed the same way, unless they end with a slash that was not there.
theorem Closes.rewritten {attributes other left : Text} (closes : Closes attributes left)
    (filled : EndsFilled other) (slash : other.getLast? = some '/' → attributes.getLast? = some '/') :
    Closes other left := by
  obtain ⟨blanks, blank, ends⟩ := closes.ends
  refine ⟨filled, blanks, blank, ends.imp_right ?_⟩
  rintro ⟨rfl, noSlash⟩
  refine ⟨rfl, fun last => noSlash ?_⟩
  rw [List.getLast?_append] at last ⊢
  cases ends : left.getLast? with
  | some c =>
    rw [ends] at last
    exact last
  | none =>
    rw [ends] at last
    exact slash last

structure OpenTag.Parts (tag : OpenTag) (line : Text) : Prop where
  whole : line = tag.name ++ (tag.attributes ++ tag.close)
  name : ∃ indent c chars, (∀ d ∈ indent, isBlank d = true) ∧ isLetter c = true ∧
    (∀ d ∈ chars, isTagNameChar d = true) ∧ tag.name = indent ++ '<' :: c :: chars
  stop : ∀ c ∈ (tag.attributes ++ tag.close).head?, isTagNameChar c = false
  inside : '>' ∉ tag.attributes
  close : ∃ left after, Closes tag.attributes left ∧ '>' ∉ left ∧ tag.close = left ++ '>' :: after

theorem openTag?_eq_some_iff {tag : OpenTag} : openTag? line = some tag ↔ tag.Parts line := by
  constructor
  · intro read
    have whole := (openTag?_eq_some read).whole
    unfold openTag? at read
    split at read
    · rename_i c rest angle
      split at read
      · rename_i letter
        split at read
        · cases read
        · rename_i inside after split
          obtain ⟨behind, noAngle⟩ := splitAtFirst?_eq_some_iff.mp split
          obtain ⟨left, cut, dropped, _⟩ := attributesOf_cut inside
          have closes : Closes (attributesOf inside) left := attributesOf_eq_iff.mp (by rw [← cut])
          have kept := noAngle
          rw [cut, List.mem_append, not_or] at kept
          cases read
          refine ⟨whole, ⟨_, c, _, fun d => List.mem_takeWhile_imp, letter,
            fun d => List.mem_takeWhile_imp, rfl⟩, ?_, kept.1, left, after, closes, kept.2, by rw [dropped]⟩
          intro d first
          dsimp only at first
          rw [dropped, ← List.append_assoc, ← cut, ← behind] at first
          simpa [Option.mem_def.mp first] using List.head?_dropWhile_not isTagNameChar rest
      · cases read
    · cases read
  · obtain ⟨name, attributes, close⟩ := tag
    rintro ⟨rfl, ⟨indent, c, chars, blank, letter, named, rfl⟩, stop, inside, left, after, closes, outside,
      rfl⟩
    dsimp only at stop inside closes ⊢
    have line : indent ++ '<' :: c :: chars ++ (attributes ++ (left ++ '>' :: after)) =
        indent ++ '<' :: c :: (chars ++ (attributes ++ (left ++ '>' :: after))) := by simp
    have angleFirst : ∀ d ∈ ('<' :: c :: (chars ++ (attributes ++ (left ++ '>' :: after)))).head?,
        isBlank d = false := by simp [isBlank]
    have angle := takeWhile_append_stop blank angleFirst
    obtain ⟨chars_taken, behind⟩ := takeWhile_append_stop named stop
    have split : splitAtFirst? '>' (attributes ++ (left ++ '>' :: after)) =
        some (attributes ++ left, after) :=
      splitAtFirst?_eq_some_iff.mpr ⟨by simp, by simp [inside, outside]⟩
    rw [line, openTag?, angle.2]
    simp only [letter, ↓reduceIte, behind, split, chars_taken, angle.1, attributesOf_eq_iff.mpr closes,
      List.drop_left]

theorem OpenTag.Parts.rewritten {tag : OpenTag} {other : Text} (parts : tag.Parts line)
    (filled : EndsFilled other) (slash : other.getLast? = some '/' → tag.attributes.getLast? = some '/')
    (inside : '>' ∉ other) (stop : ∀ c ∈ (other ++ tag.close).head?, isTagNameChar c = false) :
    openTag? (tag.name ++ other ++ tag.close) = some { tag with attributes := other } := by
  obtain ⟨left, after, closes, outside, close⟩ := parts.close
  exact openTag?_eq_some_iff.mpr ⟨List.append_assoc _ _ _, parts.name, stop, inside, left, after,
    closes.rewritten filled slash, outside, close⟩

variable {attributes classed : Text}

theorem addClass?_cases (added : addClass? attributes name = some classed) :
    (classValue? none attributes = none ∧ classed = " class=\"".toList ++ name ++ '"' :: attributes) ∨
      ∃ found, classValue? none attributes = some found ∧
        classed = found.start ++ (mergeClass found.value name ++ found.rest) := by
  unfold addClass? at added
  split at added
  · rename_i absent
    cases added
    exact .inl ⟨absent, rfl⟩
  · rename_i found read
    split at added
    · cases added
    · cases added
      exact .inr ⟨found, read, List.append_assoc _ _ _⟩

theorem mem_of_mem_addClass? (added : addClass? attributes name = some classed) (member : c ∈ classed) :
    c ∈ attributes ∨ c ∈ " class=\"".toList ∨ c ∈ name := by
  rcases addClass?_cases added with ⟨_, rfl⟩ | ⟨found, read, rfl⟩
  · rcases List.mem_append.mp member with before | behind
    · exact .inr (List.mem_append.mp before)
    · rcases List.mem_cons.mp behind with rfl | old
      · exact .inr (.inl (by decide))
      · exact .inl old
  · rw [(classValue?_eq_some read).whole]
    simp only [List.mem_append] at member ⊢
    rcases member with start | value | rest
    · exact .inl (.inl start)
    · rcases mem_of_mem_mergeClass value with old | rfl | inName
      · exact .inl (.inr (.inl old))
      · exact .inr (.inl (by decide))
      · exact .inr (.inr inName)
    · exact .inl (.inr (.inr rest))

-- Attributes with one more class begin and end as they did, but where a class attribute is put before
-- them.
theorem addClass?_ends (added : addClass? attributes name = some classed) :
    (classed.getLast? = some '"' ∨ classed.getLast? = attributes.getLast?) ∧
      (classed.head? = some ' ' ∨ classed.head? = attributes.head?) ∧ classed ≠ [] := by
  rcases addClass?_cases added with ⟨_, rfl⟩ | ⟨found, read, rfl⟩
  · refine ⟨?_, .inl rfl, by simp⟩
    by_cases empty : attributes = []
    · rw [empty]
      exact .inl (List.getLast?_append_of_ne_nil _ (List.cons_ne_nil _ _))
    · rw [List.append_cons, List.getLast?_append_of_ne_nil _ empty]
      exact .inr rfl
  · obtain ⟨whole, ⟨front, opened⟩, ⟨after, closed⟩⟩ := classValue?_eq_some read
    refine ⟨.inr ?_, .inr ?_, by simp [opened]⟩
    · have ends : ∀ value, (found.start ++ (value ++ found.rest)).getLast? = found.rest.getLast? := by
        intro value
        have present : found.rest ≠ [] := closed ▸ List.cons_ne_nil _ _
        rw [← List.append_assoc, List.getLast?_append_of_ne_nil _ present]
      rw [ends, whole, ends]
    · rw [opened] at whole ⊢
      rw [whole]
      cases front <;> rfl

theorem addClass?_once (isName : isIdentifier name = true)
    (added : addClass? attributes name = some classed) (other : Text) :
    addClass? classed other = none := by
  have noQuote : '"' ∉ name := notMem_of_isIdentifier isName (by decide)
  obtain ⟨found, read, listed⟩ : ∃ found, classValue? none classed = some found ∧
      name ∈ blankSeparated found.value := by
    rcases addClass?_cases added with ⟨_, rfl⟩ | ⟨found, read, rfl⟩
    · have here : classHere? ("class=\"".toList ++ (name ++ '"' :: attributes)) =
          some ⟨"class=\"".toList, name, '"' :: attributes⟩ :=
        classHere?_eq_some_iff.mpr ⟨⟨[], [], by simp, by simp, rfl⟩, noQuote, ⟨attributes, rfl⟩, rfl⟩
      have space : classHere? (' ' :: ("class=\"".toList ++ (name ++ '"' :: attributes))) = none := rfl
      refine ⟨⟨" class=\"".toList, name, '"' :: attributes⟩, ?_, ?_⟩
      · have shape : " class=\"".toList ++ name ++ '"' :: attributes =
            ' ' :: ("class=\"".toList ++ (name ++ '"' :: attributes)) := by simp
        rw [shape, classValue?_past (.inr space), classValue?_here (by decide) here]
        rfl
      · rw [blankSeparated_identifier isName]
        exact List.mem_singleton_self name
    · have kept : '"' ∉ mergeClass found.value name := by
        intro member
        rcases mem_of_mem_mergeClass member with old | space | inName
        · exact (classValue?_opens read).2.1 old
        · cases space
        · exact noQuote inName
      refine ⟨_, classValue?_revalued read kept, ?_⟩
      rw [blankSeparated_mergeClass isName]
      exact List.mem_append_right _ (List.mem_singleton_self name)
  have taken : (blankSeparated found.value).any isIdentifier = true :=
    List.any_eq_true.mpr ⟨name, listed, isName⟩
  simp only [addClass?, read, taken, ↓reduceIte]

theorem isTagNameChar_space : isTagNameChar ' ' = false := by decide

theorem openTag?_classed {tag : OpenTag} (isName : isIdentifier name = true)
    (read : openTag? line = some tag) (added : addClass? tag.attributes name = some classed) :
    openTag? (tag.name ++ classed ++ tag.close) = some { tag with attributes := classed } := by
  have parts := openTag?_eq_some_iff.mp read
  obtain ⟨last, first, present⟩ := addClass?_ends added
  obtain ⟨_, _, closes, _⟩ := parts.close
  refine parts.rewritten ?_ ?_ ?_ ?_
  · intro c ends
    rcases last with quote | same
    · rw [quote] at ends
      cases ends
      rfl
    · exact closes.filled c (same ▸ ends)
  · rintro slash
    rcases last with quote | same
    · rw [quote] at slash
      cases slash
    · rw [← same, slash]
  · intro member
    rcases mem_of_mem_addClass? added member with old | start | inName
    · exact parts.inside old
    · exact absurd start (by decide)
    · exact notMem_of_isIdentifier isName (by decide) inName
  · intro c starts
    rw [List.head?_append_of_ne_nil _ present] at starts
    rcases first with space | same
    · rw [space] at starts
      cases starts
      exact isTagNameChar_space
    · refine parts.stop c ?_
      rw [same] at starts
      rw [List.head?_append, starts]
      rfl

end Naming
end BlockMarkup
