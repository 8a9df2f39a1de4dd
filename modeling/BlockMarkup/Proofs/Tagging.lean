import BlockMarkup.Proofs.Checked.Block
import BlockMarkup.Proofs.ClassValue
import BlockMarkup.Proofs.Header
import BlockMarkup.Proofs.Shape

namespace BlockMarkup

variable {t line front back name : Text} {c : Char}

theorem classify_of_angle {indent rest : Text} (blank : ∀ c ∈ indent, isBlank c = true)
    (angle : dropReturn line = indent ++ '<' :: rest) : Line.classify line = .content := by
  have stop : ∀ c ∈ ('<' :: rest).head?, isBlank c = false := by simp [isBlank]
  have cut := takeWhile_append_stop blank stop
  have noHeader : Line.header? (indent ++ '<' :: rest) = none := by
    refine header?_eq_none ?_
    cases indent with
    | nil => simp
    | cons d indent =>
      have blank := blank d List.mem_cons_self
      rintro ⟨⟩
      cases blank
  have noProperty : Line.property? (indent ++ '<' :: rest) = none := by
    rw [Line.property?, cut.2]
    rfl
  have filled : (indent ++ '<' :: rest).all isBlank = false := by simp [isBlank]
  simp [Line.classify, angle, filled, noHeader, noProperty]

def classMark (name : Text) : Text := " \x7b.".toList ++ name ++ ['\x7d']

section annotated

open Identifier

theorem notMem_classMark (isName : isIdentifier name = true) (apart : isWord c = false)
    (other : c ∉ [' ', '\x7b', '.', '\x7d']) : c ∉ classMark name := by
  have absent := notMem_of_isIdentifier isName apart
  simp only [List.mem_cons, List.not_mem_nil, or_false, not_or] at other
  simp [classMark, absent, other]

theorem getLast?_classMark (name : Text) : (classMark name).getLast? = some '\x7d' :=
  List.getLast?_concat

theorem classMark_ne_nil (name : Text) : classMark name ≠ [] := by simp [classMark]

-- A line that is no header is none with an annotation: a colon behind the block type would be there
-- before, and without one nothing may stand behind it.
theorem header?_annotated (isName : isIdentifier name = true) (plain : '\n' ∉ t)
    (noHeader : Line.header? t = none) : Line.header? (trimEnd t ++ classMark name) = none := by
  obtain ⟨blanks, whole, _⟩ := exists_trimEnd t
  rw [← Option.not_isSome_iff_eq_none]
  intro read
  obtain ⟨front, tail, cut, opens, stop, labelled⟩ := header?_isSome_iff.mp read
  have newline : '\n' ∉ classMark name := notMem_classMark isName (by decide) (by decide)
  have colon : ':' ∉ classMark name := notMem_classMark isName (by decide) (by decide)
  have oneLine : '\n' ∉ tail := by
    intro member
    have inside := List.mem_append_right front member
    rw [← cut, List.mem_append] at inside
    exact inside.elim (fun before => plain ((prefix_trimEnd t).subset before)) newline
  have last : (front ++ tail).getLast? = some '\x7d' := by
    rw [← cut, List.getLast?_append_of_ne_nil _ (classMark_ne_nil name), getLast?_classMark]
  rcases (labelAfter?_isSome_iff oneLine).mp labelled with blank | ⟨gap, text, blank, rfl⟩
  · cases tail with
    | nil =>
      rw [List.append_nil] at last
      have apart : ¬(Line.isTypeStart '\x7d' = true ∨ Line.isTypeChar '\x7d' = true) := by decide
      exact absurd (opens.last last) apart
    | cons d rest =>
      rw [List.getLast?_append_of_ne_nil _ (List.cons_ne_nil d rest)] at last
      cases blank '\x7d' (List.mem_of_getLast? last)
  · rw [← List.append_assoc] at cut
    obtain ⟨rest, before⟩ := exists_before_mark colon cut
    have same : t = front ++ (gap ++ ':' :: (rest ++ blanks)) := by
      rw [whole, before]
      simp
    have there : (Line.header? t).isSome = true := by
      rw [same] at plain ⊢
      refine header?_isSome_iff.mpr ⟨front, _, rfl, opens, isTypeChar_before_colon blank _, ?_⟩
      refine (labelAfter?_isSome_iff ?_).mpr (.inr ⟨gap, _, blank, rfl⟩)
      exact fun member => plain (List.mem_append_right front member)
    rw [noHeader] at there
    cases there

theorem plain_of_isCandidate (candidate : Naming.isCandidate line = true) :
    (dropReturn line).all isBlank = false ∧ Line.header? (dropReturn line) = none := by
  cases filled : (dropReturn line).all isBlank with
  | true =>
    have kind : Line.classify line = .blank := by simp [Line.classify, filled]
    simp [Naming.isCandidate, kind] at candidate
  | false =>
    refine ⟨rfl, ?_⟩
    cases read : Line.header? (dropReturn line) with
    | none => rfl
    | some kind =>
      have boundary := header?_eq_some read
      rw [Naming.isCandidate, classify_of_header? read] at candidate
      cases kind with
      | header => cases candidate
      | close => cases candidate
      | _ => cases boundary

theorem shape_annotated {old new : Text} (isName : isIdentifier name = true)
    (plain : '\n' ∉ dropReturn old) (candidate : Naming.isCandidate old = true)
    (annotated : dropReturn new = trimEnd (dropReturn old) ++ classMark name) :
    shape new = shape old := by
  obtain ⟨filled, noHeader⟩ := plain_of_isCandidate candidate
  obtain ⟨blanks, whole, blank⟩ := exists_trimEnd (dropReturn old)
  have words : (trimEnd (dropReturn old)).all isBlank = false := by
    rwa [whole, List.all_append, List.all_eq_true.mpr blank, Bool.and_true] at filled
  have newline : '\n' ∉ classMark name := notMem_classMark isName (by decide) (by decide)
  have newPlain : '\n' ∉ trimEnd (dropReturn old) ++ classMark name := by
    rw [List.mem_append, not_or]
    exact ⟨fun member => plain ((prefix_trimEnd _).subset member), newline⟩
  have newFilled : (trimEnd (dropReturn old) ++ classMark name).all isBlank = false := by
    rw [List.all_append, words, Bool.false_and]
  have behind : ∀ c ∈ (classMark name).head?, isBlank c = true := by
    intro c first
    cases first
    rfl
  have newKey := key_append_blank words behind
  have blankBehind : ∀ c ∈ blanks.head?, isBlank c = true :=
    fun c first => blank c (List.mem_of_mem_head? first)
  have oldKey := key_append_blank words blankBehind
  rw [shape_of_plain (annotated ▸ newFilled) (annotated ▸ header?_annotated isName plain noHeader),
    shape_of_plain filled noHeader, annotated, property?_withoutValue newPlain,
    property?_withoutValue plain]
  rw [← whole] at oldKey
  rw [newKey.1, newKey.2, oldKey.1, oldKey.2]

end annotated

namespace Naming

open Identifier

variable {annotated old : Text}

theorem isAnnotated_append (front : Text) (ends : isAnnotated back = true) :
    isAnnotated (front ++ back) = true := by
  induction front with
  | nil => exact ends
  | cons c front ih => rw [List.cons_append, isAnnotated, ih, Bool.or_true]

theorem isAnnotated_classMark (isName : isIdentifier name = true) (t : Text) :
    isAnnotated (t ++ classMark name) = true := by
  have noBrace : ∀ c ∈ name, (c != '\x7d') = true := by
    intro c member
    rw [bne_iff_ne]
    rintro rfl
    exact notMem_of_isIdentifier isName (by decide) member
  have closes : closesClasses ('.' :: (name ++ ['\x7d'])) = true := by
    have starts : trimStart ('.' :: (name ++ ['\x7d'])) = '.' :: (name ++ ['\x7d']) :=
      trimStart_eq_self (startsFilled_cons.mpr rfl)
    have names : (name ++ ['\x7d']).dropWhile (· != '\x7d') = ['\x7d'] :=
      (takeWhile_append_stop noBrace (by simp)).2
    simp [closesClasses, starts, names]
  have shape : classMark name = [' '] ++ '\x7b' :: '.' :: (name ++ ['\x7d']) := by simp [classMark]
  refine isAnnotated_append t ?_
  rw [shape]
  refine isAnnotated_append [' '] ?_
  rw [isAnnotated, closes]
  rfl

theorem openTag?_isSome_iff : (openTag? line).isSome = true ↔ ∃ indent c rest,
    (∀ d ∈ indent, isBlank d = true) ∧ isLetter c = true ∧ '>' ∈ rest ∧
      line = indent ++ '<' :: c :: rest := by
  constructor
  · intro read
    obtain ⟨tag, found⟩ := Option.isSome_iff_exists.mp read
    obtain ⟨whole, ⟨indent, c, chars, blank, letter, _, named⟩, _, _, left, after, _, _, close⟩ :=
      openTag?_eq_some_iff.mp found
    refine ⟨indent, c, chars ++ (tag.attributes ++ tag.close), blank, letter, by simp [close], ?_⟩
    rw [whole, named]
    simp
  · rintro ⟨indent, c, rest, blank, letter, angle, rfl⟩
    have start : (indent ++ '<' :: c :: rest).dropWhile isBlank = '<' :: c :: rest :=
      (takeWhile_append_stop blank (by simp [isBlank])).2
    have noName : isTagNameChar '>' = false := by decide
    have inside : '>' ∈ rest.dropWhile isTagNameChar := by
      rw [← List.takeWhile_append_dropWhile (p := isTagNameChar) (l := rest), List.mem_append] at angle
      rcases angle with named | behind
      · have named := List.mem_takeWhile_imp named
        rw [noName] at named
        cases named
      · exact behind
    obtain ⟨before, after, cut, absent⟩ := List.eq_append_cons_of_mem inside
    rw [openTag?, start]
    simp only [letter, ↓reduceIte, splitAtFirst?_eq_some_iff.mpr ⟨cut, absent⟩, Option.isSome_some]

theorem openTag?_annotated (isName : isIdentifier name = true) (noTag : openTag? t = none) :
    openTag? (trimEnd t ++ classMark name) = none := by
  obtain ⟨blanks, whole, _⟩ := exists_trimEnd t
  have noAngle : '<' ∉ classMark name := notMem_classMark isName (by decide) (by decide)
  have noEnd : '>' ∉ classMark name := notMem_classMark isName (by decide) (by decide)
  rw [← Option.not_isSome_iff_eq_none]
  intro read
  obtain ⟨indent, c, rest, blank, letter, angle, cut⟩ := openTag?_isSome_iff.mp read
  obtain ⟨more, before⟩ := exists_before_mark noAngle cut
  rw [before, List.append_assoc, List.cons_append, List.append_cancel_left_eq, List.cons.injEq] at cut
  obtain ⟨_, behind⟩ := cut
  cases more with
  | nil =>
    -- The annotation would have to go on with the name of a tag.
    obtain ⟨rfl, _⟩ := List.cons.inj behind
    cases letter
  | cons d more =>
    obtain ⟨rfl, rfl⟩ := List.cons.inj behind
    have inside : '>' ∈ more ++ blanks :=
      List.mem_append_left _ ((List.mem_append.mp angle).resolve_right noEnd)
    have there : (openTag? t).isSome = true :=
      openTag?_isSome_iff.mpr ⟨indent, d, more ++ blanks, blank, letter, inside, by
        rw [whole, before]
        simp⟩
    rw [noTag] at there
    cases there

theorem annotate?_cases (written : annotate? t name = some annotated) :
    (∃ tag classed, openTag? t = some tag ∧ addClass? tag.attributes name = some classed ∧
      annotated = tag.name ++ classed ++ tag.close) ∨
      openTag? t = none ∧ annotated = trimEnd t ++ classMark name := by
  unfold annotate? at written
  split at written
  · rename_i tag read
    obtain ⟨classed, added, rfl⟩ := Option.map_eq_some_iff.mp written
    exact .inl ⟨tag, classed, read, added, rfl⟩
  · rename_i noTag
    split at written
    · cases written
    · cases written
      exact .inr ⟨noTag, by simp [classMark]⟩

theorem annotate?_once (isName : isIdentifier name = true) (written : annotate? t name = some annotated)
    (other : Text) : annotate? annotated other = none := by
  rcases annotate?_cases written with ⟨tag, classed, read, added, rfl⟩ | ⟨noTag, rfl⟩
  · rw [annotate?, openTag?_classed isName read added]
    dsimp only
    rw [addClass?_once isName added, Option.map_none]
  · rw [annotate?, openTag?_annotated isName noTag]
    dsimp only
    rw [if_pos (isAnnotated_classMark isName _)]

theorem annotate?_last (written : annotate? t name = some annotated) :
    annotated.getLast? = t.getLast? ∨ annotated.getLast? = some '\x7d' := by
  rcases annotate?_cases written with ⟨tag, classed, read, _, rfl⟩ | ⟨_, rfl⟩
  · left
    obtain ⟨whole, _, _, _, left, after, _, _, close⟩ := openTag?_eq_some_iff.mp read
    have present : tag.close ≠ [] := by simp [close]
    rw [whole, ← List.append_assoc, List.getLast?_append_of_ne_nil _ present,
      List.getLast?_append_of_ne_nil _ present]
  · right
    rw [List.getLast?_append_of_ne_nil _ (classMark_ne_nil name), getLast?_classMark]

theorem newline_notMem_annotate? (isName : isIdentifier name = true) (plain : '\n' ∉ t)
    (written : annotate? t name = some annotated) : '\n' ∉ annotated := by
  have noName : '\n' ∉ name := notMem_of_isIdentifier isName (by decide)
  intro member
  rcases annotate?_cases written with ⟨tag, classed, read, added, rfl⟩ | ⟨_, rfl⟩
  · rw [(openTag?_eq_some_iff.mp read).whole] at plain
    simp only [List.mem_append, not_or] at member plain
    rcases member with (inTag | inClassed) | inClose
    · exact plain.1 inTag
    · rcases mem_of_mem_addClass? added inClassed with old | start | inName
      · exact plain.2.1 old
      · exact absurd start (by decide)
      · exact noName inName
    · exact plain.2.2 inClose
  · rcases List.mem_append.mp member with old | behind
    · exact plain ((prefix_trimEnd t).subset old)
    · exact notMem_classMark isName (by decide) (by decide) behind

theorem returns_annotate? (written : annotate? (dropReturn old) name = some annotated) :
    dropReturn (annotated ++ finalReturn old) = annotated ∧
      finalReturn (annotated ++ finalReturn old) = finalReturn old := by
  by_cases ends : old.getLast? = some '\r'
  · simp [finalReturn, dropReturn, ends]
  · have same : dropReturn old = old := if_neg ends
    have noReturn : annotated.getLast? ≠ some '\r' := by
      rcases annotate?_last written with kept | brace
      · rwa [kept, same]
      · rw [brace]
        decide
    simp [finalReturn, dropReturn, ends, noReturn]

theorem shape_annotate? (isName : isIdentifier name = true) (plain : '\n' ∉ dropReturn old)
    (candidate : isCandidate old = true) (written : annotate? (dropReturn old) name = some annotated) :
    shape (annotated ++ finalReturn old) = shape old := by
  have dropped := (returns_annotate? written).1
  rcases annotate?_cases written with ⟨tag, classed, read, _, cut⟩ | ⟨_, cut⟩
  · obtain ⟨whole, ⟨indent, c, chars, blank, _, _, named⟩, _⟩ := openTag?_eq_some_iff.mp read
    have angle : ∀ rest, tag.name ++ rest = indent ++ '<' :: (c :: chars ++ rest) := by
      intro rest
      rw [named]
      simp
    rw [angle] at whole
    rw [List.append_assoc, angle] at cut
    rw [shape, shape, classify_of_angle blank (dropped.trans cut), classify_of_angle blank whole]
  · exact shape_annotated isName plain candidate (dropped.trans cut)

variable {source changed : Text} {lines : List Text} {number limit : Nat}

theorem IsContent.outsideStyles (content : IsContent (splitLines source) number) :
    OutsideStyles source number := by
  intro region member
  have exact := Style.Region.exact_of_mem member
  obtain ⟨label, heads⟩ := exact.heads
  rcases Nat.lt_or_ge number region.headerLine with above | after
  · exact .inl above
  rcases Nat.lt_or_ge number region.endLine with before | below
  · -- Up to the end of the block there is no other header, so the style header stands over the line.
    have isOver : IsOver (splitLines source) number ⟨region.headerLine, styleType, label⟩ := by
      refine ⟨heads, after, fun other otherHeads upTo => Nat.le_of_not_lt fun later => ?_⟩
      exact exact.plain other.line later (Nat.lt_of_le_of_lt upTo before) otherHeads.boundaryAt
    have inStyle := content _ (headerAtOrAbove?_eq_some_iff.mpr isOver)
    simp [isContentOf] at inStyle
  · exact .inr below

theorem IsContent.notInCluster (content : IsContent lines number) : ¬InCluster lines number := by
  rintro ⟨header, stop, heads, found, member, rfl⟩
  have isOver := isOver_of_mem_propertyCluster heads member
  have isContent := content header (headerAtOrAbove?_eq_some_iff.mpr isOver)
  have whole : found ∈ propertyCluster lines header.line (lines.length + 1) := by
    rw [propertyCluster_eq_filter, List.mem_filter] at member ⊢
    have bounds := mem_clusterFrom_bounds member.1
    have within := heads.line_le
    rw [List.length_drop] at bounds
    exact ⟨member.1, decide_eq_true (by omega)⟩
  simp only [isContentOf, Bool.and_eq_true, Bool.not_eq_true', List.any_eq_false] at isContent
  exact isContent.2 found whole (by simp)

-- What giving a class to one line of a document leaves as it was.
structure ClassGiven (source changed : Text) (limit number : Nat) (old new : Text) : Prop where
  upTo : number ≤ limit
  there : lineAt? (splitLines source) number = some old
  written : splitLines changed = replaceLine (splitLines source) number new
  other : new ≠ old
  returns : finalReturn new = finalReturn old
  noBoundary : isBoundaryLine old = false
  noBlank : isBlankLine old = false
  outsideStyles : OutsideStyles source number
  notInCluster : ¬InCluster (splitLines source) number
  shape : SameShape (splitLines source) (splitLines changed)
  compiled : compileStyles changed = compileStyles source
  located : ∀ cursor, Block.locate? changed cursor = Block.locate? source cursor
  answered : Checked.Fits source → Checked.Fits changed →
    ∀ cursor : UInt64, Checked.locate changed cursor = Checked.locate source cursor
  once : ∀ other, injectClass? changed limit other = none

-- A class is given to one line of content at or above the line asked for, and only once.
theorem injectClass?_given (isName : isIdentifier name = true)
    (injected : injectClass? source limit name = some changed) :
    ∃ number old new, ClassGiven source changed limit number old new := by
  obtain ⟨number, old, annotated, ⟨found, content⟩, candidate, written, replaced⟩ :=
    injectClass?_eq_some injected
  have there := replaced.there
  have same := shape_annotate? isName replaced.newline_notMem.1 candidate written
  obtain ⟨dropped, returns⟩ := returns_annotate? written
  have plain : '\n' ∉ annotated ++ finalReturn old := by
    rw [List.mem_append, not_or]
    exact ⟨newline_notMem_annotate? isName replaced.newline_notMem.1 written, replaced.newline_notMem.2⟩
  have lines := replaced.splitLines plain
  have kept : SameShape (splitLines source) (splitLines changed) :=
    lines ▸ sameShape_replaceLine there same.symm
  obtain ⟨filled, noHeader⟩ := plain_of_isCandidate candidate
  have located := locate?_replaced there same.symm lines content.notInCluster
  have taken : ∀ other, annotate? (dropReturn (annotated ++ finalReturn old)) other = none :=
    dropped.symm ▸ annotate?_once isName written
  refine ⟨number, old, annotated ++ finalReturn old, ?_⟩
  exact
    { upTo := (candidateAtOrAbove?_eq_some found).1.trans (Nat.min_le_left _ _)
      there := there
      written := lines
      other := by
        intro unchanged
        have again := taken name
        rw [unchanged, written] at again
        cases again
      returns := returns
      noBoundary := isBoundaryLine_of_header?_eq_none noHeader
      noBlank := by
        rw [isBlankLine, decide_eq_false_iff_not]
        exact classify_ne_blank filled
      outsideStyles := content.outsideStyles
      notInCluster := content.notInCluster
      shape := kept
      compiled := compileStyles_replaced there same.symm lines content.outsideStyles
      located := located
      answered := fun fits stillFits =>
        Checked.locate_congr fits stillFits kept.length.symm located
      once := by
        intro other
        have there : lineAt? (splitLines changed) number = some (annotated ++ finalReturn old) := by
          rw [lines, lineAt?_replaceLine replaced.there]
        rw [injectClass?, ← kept.length, ← kept.candidateAtOrAbove?, found]
        simp [there, taken other] }

def leadCard : Text := "--- core/card\nsize: 2\n\n<p class=\"lead\">Hi</p>\r\n".toList

def taggedCard : Text := "--- core/card\nsize: 2\n\n<p class=\"lead s1\">Hi</p>\r\n".toList

theorem injectClass?_given_leadCard :
    isIdentifier "s1".toList = true ∧ injectClass? leadCard 5 "s1".toList = some taggedCard ∧
      ∃ number old new, ClassGiven leadCard taggedCard 5 number old new := by
  have isName : isIdentifier "s1".toList = true := by decide
  have injected : injectClass? leadCard 5 "s1".toList = some taggedCard := by decide
  exact ⟨isName, injected, injectClass?_given isName injected⟩

end Naming
end BlockMarkup
