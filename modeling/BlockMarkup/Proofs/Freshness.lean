import BlockMarkup.Proofs.Header
import BlockMarkup.Proofs.Identifier
import BlockMarkup.Proofs.Outline
import BlockMarkup.Proofs.Style.ReadGraph
import BlockMarkup.Tree.Click

namespace BlockMarkup

open Identifier

variable {source line t name front back label : Text} {n : Nat}

theorem joinsName_ofNat_blankCodes : ∀ n ∈ blankCodes, joinsName (Char.ofNat n) = false := by
  decide

-- A name stands in a text behind a character that joins no name, and no word goes on after it.
def Marked (name t : Text) : Prop :=
  ∃ front c back, t = front ++ c :: (name ++ back) ∧ joinsName c = false ∧ StartsApart back

theorem joinsName_of_isBlank {c : Char} (blank : isBlank c = true) : joinsName c = false :=
  outside_of_isBlank joinsName_ofNat_blankCodes blank

namespace Marked

theorem within (marked : Marked name t) (stop : StartsApart back) (front : Text) :
    Marked name (front ++ (t ++ back)) := by
  obtain ⟨before, c, after, rfl, apart, ends⟩ := marked
  exact ⟨front ++ before, c, after ++ back, by simp, apart, ends.append stop⟩

theorem behind (marked : Marked name t) (front : Text) : Marked name (front ++ t) := by
  have whole := marked.within startsApart_nil front
  rwa [List.append_nil] at whole

theorem of_colon {gap : Text} (blank : ∀ c ∈ gap, isBlank c = true) (stop : StartsApart back) :
    Marked name (':' :: (gap ++ (name ++ back))) := by
  rcases List.eq_nil_or_concat gap with rfl | ⟨front, c, rfl⟩
  · exact ⟨[], ':', back, rfl, by decide, stop⟩
  · rw [List.concat_eq_append] at blank ⊢
    exact ⟨':' :: front, c, back, by simp, joinsName_of_isBlank (blank c (by simp)), stop⟩

theorem of_trim (marked : Marked name (trim t)) : Marked name t := by
  obtain ⟨before, cut, _⟩ := exists_trimStart t
  obtain ⟨after, whole, blank⟩ := exists_trimEnd (trimStart t)
  rw [cut, whole]
  exact marked.within (.of_blanks blank) before

theorem of_dropReturn (marked : Marked name (dropReturn line)) : Marked name line := by
  have whole := marked.within (.of_blanks fun _ => isBlank_of_mem_finalReturn (t := line)) []
  rwa [List.nil_append, dropReturn_append_finalReturn] at whole

end Marked

theorem mem_numbers_of_line (member : line ∈ splitLines source) (marked : Marked (text n) line)
    (fits : n ≤ maxWord) : n ∈ numbers source := by
  obtain ⟨above, below, whole⟩ := List.append_of_mem member
  obtain ⟨front, back, newline, cut⟩ := joinLines_cut above below
  have stop : StartsApart back := by
    intro c first
    rw [newline c first]
    decide
  obtain ⟨before, c, after, shape, apart, ends⟩ := marked.within stop front
  have value : Nat.ofDigitChars 10 (decimal n) 0 = n := Nat.ofDigitChars_ten_toDigits
  refine mem_numbers_iff.mpr ⟨fits, decimal n, ⟨before ++ [c], after, ?_, ?_, ends⟩,
    decimal_ne_nil n, fun _ => isDigit_of_mem_decimal, value⟩
  · rw [← joinLines_splitLines source, whole, cut, shape, text]
    simp
  · simpa using apart

theorem marked_label {blockType : Text}
    (kind : Line.classify line = .header blockType (some label)) : Marked label line := by
  obtain ⟨front, c, back, rfl, last, mark, blank⟩ := label_between kind
  obtain ⟨before, rfl⟩ := List.getLast?_eq_some_iff.mp last
  refine ⟨before, c, back, by simp, ?_, .of_blanks blank⟩
  rcases mark with rfl | space
  · decide
  · exact joinsName_of_isBlank space

theorem mem_numbers_of_heads {header : Header} (heads : Heads (splitLines source) header)
    (labelled : header.label = some (text n)) (fits : n ≤ maxWord) : n ∈ numbers source := by
  obtain ⟨line, there, kind⟩ := Option.map_eq_some_iff.mp heads
  rw [labelled] at kind
  obtain ⟨above, below, whole, _⟩ := exists_cut_of_lineAt? there
  exact mem_numbers_of_line (by simp [whole]) (marked_label kind) fits

namespace Style

-- A rule is about a name when it has the name as its label or is about what has the name as a class.
def Address.Names (name : Text) (address : Address) : Prop :=
  address.label = some name ∨ address.target = Landing.target (.identified name)

variable {selector content : Text}

theorem marked_blockSelector {blockType suffix : Text}
    (parts : blockSelector? content = some (blockType, some suffix)) : Marked suffix content := by
  unfold blockSelector? at parts
  split at parts
  · cases parts
  rename_i found rest taken
  obtain ⟨rfl, _⟩ := takeBlockType?_eq_some taken
  split at parts
  · cases parts
  split at parts
  · rename_i more colon
    dsimp only at parts
    split at parts
    · cases parts
      obtain ⟨gap, cut, _⟩ := exists_trimStart rest
      obtain ⟨space, whole, blank⟩ := exists_trimStart more
      rw [colon, whole] at cut
      rw [cut]
      have marked : Marked (trimStart more) (':' :: (space ++ (trimStart more ++ []))) :=
        .of_colon blank startsApart_nil
      rw [List.append_nil] at marked
      exact (marked.behind gap).behind blockType
    · cases parts
  · cases parts

theorem afterMark_cut (mark : Char) (allowed : Char → Bool) (t : Text) :
    (∃ piece rest, t = mark :: (piece ++ rest) ∧ (∀ c ∈ rest.head?, allowed c = false) ∧
      afterMark mark allowed t = (some piece, rest)) ∨ afterMark mark allowed t = (none, t) := by
  unfold afterMark
  split
  · exact .inr rfl
  · rename_i c rest
    split
    · rename_i marked
      simp only [Bool.and_eq_true, decide_eq_true_eq] at marked
      refine .inl ⟨rest.takeWhile allowed, rest.dropWhile allowed, ?_, ?_, rfl⟩
      · rw [List.takeWhile_append_dropWhile, marked.1]
      · intro d first
        simpa [Option.mem_def.mp first] using List.head?_dropWhile_not allowed rest
    · exact .inr rfl

theorem suffix_afterMark (mark : Char) (allowed : Char → Bool) (t : Text) :
    (afterMark mark allowed t).2 <:+ t := by
  rcases afterMark_cut mark allowed t with ⟨piece, rest, rfl, _, cut⟩ | nothing
  · rw [cut]
    exact (List.suffix_append piece rest).trans (List.suffix_cons mark _)
  · exact nothing ▸ List.suffix_refl t

theorem marked_dot (name : Text) : Marked name ('.' :: name) :=
  ⟨[], '.', [], by simp, by decide, startsApart_nil⟩

theorem marked_descendant {tail : SelectorTail} (read : selectorTail? t = some tail)
    (below : tail.descendant = some ('.' :: name)) : Marked name t := by
  simp only [selectorTail?] at read
  split at read
  · cases read
    cases below
  split at read
  · rename_i rest angle
    split at read
    · cases read
    · cases read
      have inside : Marked name (trim rest) := by
        rw [Option.some.inj below]
        exact marked_dot name
      have suffix : '>' :: rest <:+ t := by
        rw [← angle]
        exact (suffix_trimStart _).trans ((suffix_afterMark _ _ _).trans (suffix_afterMark _ _ _))
      obtain ⟨front, rfl⟩ := suffix
      exact (inside.of_trim.behind ['>']).behind front
  · cases read

theorem isWord_of_isNameChar {c : Char} (outside : isNameChar c = false) : isWord c = false := by
  simp only [isNameChar, Bool.or_eq_false_iff] at outside
  exact outside.1

theorem labelAndTail?_cut {tail : SelectorTail} {found : Option Text}
    (read : labelAndTail? t = some (found, tail)) :
    (∀ name ∈ found, Marked name t) ∧ ∃ rest, rest <:+ t ∧ selectorTail? rest = some tail := by
  simp only [labelAndTail?] at read
  split at read
  · rename_i here
    obtain ⟨rfl, rfl⟩ := Prod.mk.inj (Option.some.inj read)
    refine ⟨fun name given => ?_, _, suffix_afterMark ':' isNameChar t, here⟩
    rcases afterMark_cut ':' isNameChar t with ⟨piece, rest, rfl, stop, cut⟩ | nothing
    · rw [cut] at given
      cases given
      refine ⟨[], ':', rest, rfl, by decide, fun c first => isWord_of_isNameChar (stop c first)⟩
    · rw [nothing] at given
      cases given
  split at read
  · obtain ⟨other, here, same⟩ := Option.map_eq_some_iff.mp read
    obtain ⟨rfl, rfl⟩ := Prod.mk.inj same
    exact ⟨by simp, t, List.suffix_refl t, here⟩
  · cases read

theorem descendant_of_target? {tail : SelectorTail} (within : tail.Within t) (plain : ':' ∉ name)
    (named : tail.target? = some ('>' :: '.' :: name)) : tail.descendant = some ('.' :: name) := by
  obtain ⟨parts, _, _⟩ := within
  have noColon : ∀ owner pseudo : Text, owner ++ ':' :: pseudo ≠ '>' :: '.' :: name := by
    intro owner pseudo same
    have member : ':' ∈ '>' :: '.' :: name := by simp [← same]
    simp [plain] at member
  unfold SelectorTail.target? at named
  split at named
  · simp [selfTarget] at named
  · cases named
    rfl
  · exact absurd (Option.some.inj named) (noColon _ _)
  · cases named
    exact absurd ((parts _ rfl).2 '>' List.mem_cons_self) (by decide)
  · exact absurd (Option.some.inj named) (noColon _ _)
  · cases named

theorem marked_compactAddress {address : Address} (plain : ':' ∉ name)
    (read : compactAddress? selector = some address) (names : address.Names name) :
    Marked name selector := by
  unfold compactAddress? at read
  split at read
  · cases read
  rename_i blockType rest taken
  obtain ⟨rfl, _⟩ := takeBlockType?_eq_some taken
  split at read
  · cases read
  rename_i found tail pieces
  obtain ⟨labels, below, ⟨front, rfl⟩, here⟩ := labelAndTail?_cut pieces
  split at read
  · split at read
    · obtain ⟨target, made, rfl⟩ := Option.map_eq_some_iff.mp read
      rcases names with labelled | targeted
      · cases labelled
      · rw [show target = '>' :: '.' :: name from targeted] at made
        have alone := descendant_of_target? (t := front ++ below)
          ⟨by simp, fun text given => ((labelAndTail?_within pieces).1 text given).1, by simp⟩ plain made
        cases alone
    · cases read
  · obtain ⟨target, made, rfl⟩ := Option.map_eq_some_iff.mp read
    apply Marked.behind _ blockType
    rcases names with labelled | targeted
    · exact labels name labelled
    · rw [show target = '>' :: '.' :: name from targeted] at made
      have named := descendant_of_target? (selectorTail?_within here) plain made
      exact (marked_descendant here named).behind front

theorem startsApart_brace (t : Text) : StartsApart ('{' :: t) :=
  startsApart_cons.mpr (by decide)

-- What is left out of a kept selector are blanks and braces at its end.
theorem rawSelector_cut (content : Text) :
    ∃ rest, content = StyleLine.rawSelector content ++ rest ∧ StartsApart rest := by
  have whole : content.rdropWhile (fun c => c == '{') ++ content.rtakeWhile (fun c => c == '{') =
      content := List.rdropWhile_append_rtakeWhile
  obtain ⟨blanks, cut, blank⟩ := exists_trimEnd (content.rdropWhile fun c => c == '{')
  have braces : StartsApart (content.rtakeWhile fun c => c == '{') := by
    intro c first
    have brace := List.mem_rtakeWhile_imp (List.mem_of_mem_head? first)
    rw [eq_of_beq brace]
    decide
  refine ⟨blanks ++ content.rtakeWhile (fun c => c == '{'), ?_, (StartsApart.of_blanks blank).append braces⟩
  nth_rewrite 1 [← whole, cut]
  rw [List.append_assoc]
  rfl

theorem marked_compactParts {declarations : Text}
    (parts : StyleLine.compactParts? (trim t) = some (selector, declarations))
    (marked : Marked name selector) : Marked name (trim t) := by
  obtain ⟨before, body, whole, _, rfl, _⟩ := compactParts?_eq_some (endsFilled_trim t) parts
  rw [whole]
  exact marked.of_trim.within (startsApart_brace _) []

theorem names_ofSelector {blockType : Text} {suffix : Option Text}
    (names : (Context.ofSelector blockType suffix).address.Names name) : suffix = some name := by
  unfold Context.ofSelector suffixScope at names
  cases suffix with
  | none =>
    rcases names with labelled | targeted
    · cases labelled
    · simp [Context.address, Landing.target, selfTarget] at targeted
  | some text =>
    dsimp only at names
    split at names
    · rcases names with labelled | targeted
      · cases labelled
      · simp [Context.address, Landing.target, selfTarget] at targeted
    · rcases names with labelled | targeted
      · exact labelled
      · simp [Context.address, Landing.target, selfTarget] at targeted

theorem names_enter {context : Context} {indent : Nat} (solid : ∀ c ∈ [' ', ':'], c ∉ name)
    (names : (context.enter indent selector).address.Names name) :
    context.address.Names name ∨ Marked name selector := by
  have absent : ∀ c ∈ [' ', ':'], c ∉ '>' :: '.' :: name := by
    intro c member
    have outside := solid c member
    simp only [List.mem_cons, List.not_mem_nil, or_false] at member
    rcases member with rfl | rfl <;> simpa using outside
  cases context with
  | raw base target =>
    rw [Context.enter] at names
    split at names
    · rename_i colon
      rcases names with labelled | targeted
      · cases labelled
      · have member : ':' ∈ base ++ selector :=
          List.mem_append_right _ (List.mem_of_mem_head? colon)
        rw [show base ++ selector = '>' :: '.' :: name from targeted] at member
        exact absurd member (absent ':' (by simp))
    · rcases names with labelled | targeted
      · cases labelled
      · have member : ' ' ∈ base ++ ' ' :: selector := by simp
        rw [show base ++ ' ' :: selector = '>' :: '.' :: name from targeted] at member
        exact absurd member (absent ' ' (by simp))
  | block blockType label target opened =>
    rcases enter_block indent selector blockType target label opened with
      ⟨rest, rfl, entered⟩ | ⟨pseudo, rfl, entered⟩ | ⟨part, rfl, entered⟩ | entered
    all_goals rw [entered] at names
    · rcases names with labelled | targeted
      · exact .inl (.inl labelled)
      · obtain ⟨gap, cut, _⟩ := exists_trimStart rest
        rw [cut, (List.cons.inj targeted).2]
        exact .inr ((marked_dot name).behind ('>' :: gap))
    · rcases names with labelled | targeted
      · exact .inl (.inl labelled)
      · have member : ':' ∈ Context.pseudoOwner indent opened ++ ':' :: pseudo := by simp
        rw [show Context.pseudoOwner indent opened ++ ':' :: pseudo = '>' :: '.' :: name
          from targeted] at member
        exact absurd member (absent ':' (by simp))
    · rcases names with labelled | targeted
      · exact .inl (.inl labelled)
      · rw [show part = '>' :: '.' :: name from targeted]
        exact .inr ((marked_dot name).behind ['.', '>'])
    · exact .inl names

theorem marked_ofLines {lines : List Text} (solid : ∀ c ∈ [' ', ':'], c ∉ name) :
    ∀ rule ∈ (Graph.ofLines lines).rules, rule.address.Names name →
      ∃ line ∈ lines, Marked name line := by
  refine (each_ofLines (V := fun _ _ => True)
    (A := fun address => address.Names name → ∃ line ∈ lines, Marked name line)
    (E := fun _ _ => True)
    (C := fun context => context.address.Names name → ∃ line ∈ lines, Marked name line)
    (fun _ => id) ?_).addresses
  intro line member
  have onLine : Marked name (trim (dropReturn line)) → ∃ line ∈ lines, Marked name line :=
    fun marked => ⟨line, member, marked.of_trim.of_dropReturn⟩
  have form := form_classify line
  generalize StyleLine.classify line = kind at form
  cases form with
  | skipped => trivial
  | unknown => trivial
  | binding _ => trivial
  | declaration _ => trivial
  | block parts =>
    intro names
    rw [names_ofSelector names] at parts
    exact onLine (marked_blockSelector parts)
  | @compact selector _ parts =>
    refine ⟨fun names => onLine (marked_compactParts parts ?_), fun _ _ => trivial⟩
    cases found : compactAddress? selector with
    | some address =>
      rw [found] at names
      exact marked_compactAddress (solid ':' (by simp)) found names
    | none =>
      rw [found] at names
      rcases names with labelled | targeted
      · cases labelled
      · rw [show selector = '>' :: '.' :: name from targeted]
        exact (marked_dot name).behind ['>']
  | raw _ _ =>
    intro names
    rcases names with labelled | targeted
    · cases labelled
    · obtain ⟨rest, cut, stop⟩ := rawSelector_cut (trim (dropReturn line))
      apply onLine
      rw [cut, show StyleLine.rawSelector (trim (dropReturn line)) = '>' :: '.' :: name from targeted]
      exact ((marked_dot name).behind ['>']).within stop []
  | nested =>
    intro context earlier names
    rcases names_enter solid names with before | marked
    · exact earlier before
    · exact onLine marked

theorem mem_numbers_of_rule {rule : Rule} (member : rule ∈ (Graph.ofSource source).rules)
    (names : rule.address.Names (text n)) (fits : n ≤ maxWord) : n ∈ numbers source := by
  have solid : ∀ c ∈ [' ', ':'], c ∉ text n := by
    intro c mark inside
    have word := isWord_of_mem_text inside
    simp only [List.mem_cons, List.not_mem_nil, or_false] at mark
    rcases mark with rfl | rfl
    · rw [show isWord ' ' = false by decide] at word
      cases word
    · rw [show isWord ':' = false by decide] at word
      cases word
  unfold Graph.ofSource at member
  split at member
  · cases member
  · obtain ⟨line, inBody, marked⟩ := marked_ofLines solid rule member names
    exact mem_numbers_of_line (List.mem_of_mem_take (List.mem_of_mem_drop inBody)) marked fits

end Style

namespace Identifier

-- The next identifier stands nowhere in the text, whatever zeros its number is written with. It is the
-- label of no header and of no rule, and no rule is about what has it as a class. The texts are those
-- that a machine can hold: one that uses up every number of 64 bits would leave none to give.
theorem next_unused (source : Text) (room : source.length < maxWord) :
    ∃ n, Identifier.next source = text n ∧ 1 ≤ n ∧
      (∀ digits, Stands digits source → digits ≠ [] → (∀ c ∈ digits, c.isDigit = true) →
        Nat.ofDigitChars 10 digits 0 ≠ n) ∧
      (∀ header ∈ headers (splitLines source), header.label ≠ some (text n)) ∧
      ∀ rule ∈ (Style.Graph.ofSource source).rules,
        rule.address.label ≠ some (text n) ∧
          rule.address.target ≠ Landing.target (.identified (text n)) := by
  have fits : nextNumber source ≤ maxWord :=
    nextNumber_le (Nat.lt_of_le_of_lt (length_numbersFrom_le none source) room)
  have absent := nextNumber_notMem source
  refine ⟨nextNumber source, rfl, nextNumber_pos source, ?_, ?_, ?_⟩
  · intro digits stands present ascii value
    exact absent (mem_numbers_iff.mpr ⟨fits, digits, stands, present, ascii, value⟩)
  · intro header member labelled
    exact absent (mem_numbers_of_heads (mem_headers_iff.mp member) labelled fits)
  · intro rule member
    constructor
    · exact fun labelled => absent (Style.mem_numbers_of_rule member (.inl labelled) fits)
    · exact fun targeted => absent (Style.mem_numbers_of_rule member (.inr targeted) fits)

def crowdedPage : Text :=
  ("--- style\ncore/card:s18446744073709551615\n  > .s2\n    color: red\n" ++
    "--- core/card: s18446744073709551616\nHi \x7b.s001\x7d\n--- core/text: s\u0663").toList

theorem next_unused_crowdedPage :
    crowdedPage.length < maxWord ∧ Identifier.next crowdedPage = text 3 ∧
      (Stands "001".toList crowdedPage ∧ Nat.ofDigitChars 10 "001".toList 0 ≠ 3) ∧
      (∀ header ∈ headers (splitLines crowdedPage), header.label ≠ some (text 3)) ∧
      ∃ rule ∈ (Style.Graph.ofSource crowdedPage).rules,
        rule.address = ⟨"core/card".toList, ">.s2".toList, some (text maxWord)⟩ ∧
          rule.address.label ≠ some (text 3) ∧
          rule.address.target ≠ Landing.target (.identified (text 3)) := by
  have room : crowdedPage.length < maxWord := by decide +kernel
  have next : Identifier.next crowdedPage = text 3 := by decide +kernel
  obtain ⟨n, same, _, digits, labels, rules⟩ := next_unused crowdedPage room
  obtain rfl : 3 = n := text_injective (next.symm.trans same)
  have present : ∃ rule ∈ (Style.Graph.ofSource crowdedPage).rules,
      rule.address = ⟨"core/card".toList, ">.s2".toList, some (text maxWord)⟩ := by
    decide +kernel
  have stands : Stands "001".toList crowdedPage :=
    ⟨crowdedPage.take 107, crowdedPage.drop 111, by decide +kernel, by decide +kernel,
      by decide +kernel⟩
  obtain ⟨rule, member, address⟩ := present
  exact ⟨room, next, ⟨stands, digits _ stands (by decide) (by decide)⟩, labels, rule, member,
    address, rules rule member⟩

end Identifier
end BlockMarkup
