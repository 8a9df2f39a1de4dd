import BlockMarkup.Proofs.Lines
import BlockMarkup.Style.Region

namespace BlockMarkup

variable {front back lines : List Text}

theorem linesToBoundary_append (plain : ∀ line ∈ front, isBoundaryLine line = false)
    (stop : ∀ line ∈ back.head?, isBoundaryLine line = true) :
    linesToBoundary (front ++ back) = front := by
  refine (takeWhile_append_stop ?_ ?_).1
  · intro line member
    simp [plain line member]
  · intro line first
    simp [stop line first]

theorem linesToBoundary_split (lines : List Text) :
    ∃ rest, lines = linesToBoundary lines ++ rest ∧
      (∀ line ∈ linesToBoundary lines, isBoundaryLine line = false) ∧
      ∀ line ∈ rest.head?, isBoundaryLine line = true := by
  refine ⟨lines.dropWhile fun line => !isBoundaryLine line, ?_, ?_, ?_⟩
  · exact List.takeWhile_append_dropWhile.symm
  · intro line member
    simpa using List.mem_takeWhile_imp member
  · intro line first
    have kept := List.head?_dropWhile_not (fun line => !isBoundaryLine line) lines
    rw [Option.mem_def.mp first] at kept
    simpa using kept

theorem dropBlankTail_append (blank : ∀ line ∈ back, isBlankLine line = true)
    (filled : ∀ line ∈ front.getLast?, isBlankLine line = false) :
    dropBlankTail (front ++ back) = front := by
  have reversed : (front ++ back).reverse = back.reverse ++ front.reverse := List.reverse_append
  have dropped : (back.reverse ++ front.reverse).dropWhile isBlankLine = front.reverse :=
    (takeWhile_append_stop (by simpa using blank) (by simpa using filled)).2
  rw [dropBlankTail, reversed, dropped, List.reverse_reverse]

theorem dropBlankTail_split (lines : List Text) :
    ∃ blanks, lines = dropBlankTail lines ++ blanks ∧
      (∀ line ∈ blanks, isBlankLine line = true) ∧
      ∀ line ∈ (dropBlankTail lines).getLast?, isBlankLine line = false := by
  refine ⟨(lines.reverse.takeWhile isBlankLine).reverse, ?_, ?_, ?_⟩
  · rw [dropBlankTail, ← List.reverse_append, List.takeWhile_append_dropWhile,
      List.reverse_reverse]
  · intro line member
    exact List.mem_takeWhile_imp (List.mem_reverse.mp member)
  · intro line last
    have kept := List.head?_dropWhile_not isBlankLine lines.reverse
    rw [dropBlankTail, List.getLast?_reverse] at last
    rw [Option.mem_def.mp last] at kept
    simpa using kept

theorem isBlankLine_iff {line : Text} : isBlankLine line = true ↔ ∀ c ∈ line, isBlank c = true := by
  have returns : ∀ c ∈ finalReturn line, isBlank c = true := by
    intro c member
    rw [finalReturn] at member
    split at member
    · rw [List.mem_singleton.mp member]
      rfl
    · cases member
  have whole : (∀ c ∈ line, isBlank c = true) ↔ (dropReturn line).all isBlank = true := by
    rw [List.all_eq_true]
    constructor
    · intro blanks c member
      apply blanks c
      rw [← dropReturn_append_finalReturn line]
      exact List.mem_append_left _ member
    · intro blanks c member
      rw [← dropReturn_append_finalReturn line] at member
      rcases List.mem_append.mp member with front | back
      · exact blanks c front
      · exact returns c back
  rw [whole]
  constructor
  · intro blank
    cases solid : (dropReturn line).all isBlank with
    | true => rfl
    | false => exact absurd (by simpa [isBlankLine] using blank) (classify_ne_blank solid)
  · intro inside
    simp [isBlankLine, Line.classify, inside]

theorem not_blank_of_boundary {line : Text} (boundary : isBoundaryLine line = true) :
    isBlankLine line = false := by
  cases kind : Line.classify line with
  | blank => simp [isBoundaryLine, kind, Line.isBoundary] at boundary
  | _ => simp [isBlankLine, kind]

namespace Style

theorem classify_of_isStyleHeader {line : Text} (isHeader : isStyleHeader line = true) :
    ∃ label, Line.classify line = .header styleType label := by
  unfold isStyleHeader at isHeader
  split at isHeader
  · rename_i blockType label kind
    rw [decide_eq_true_eq] at isHeader
    exact ⟨label, isHeader ▸ kind⟩
  · cases isHeader

theorem isBoundaryLine_of_isStyleHeader {line : Text} (isHeader : isStyleHeader line = true) :
    isBoundaryLine line = true := by
  obtain ⟨label, kind⟩ := classify_of_isStyleHeader isHeader
  simp [isBoundaryLine, kind, Line.isBoundary]

theorem isStyleHeader_eq_false {line : Text} (plain : isBoundaryLine line = false) :
    isStyleHeader line = false := by
  cases isHeader : isStyleHeader line with
  | false => rfl
  | true =>
    rw [isBoundaryLine_of_isStyleHeader isHeader] at plain
    cases plain

-- The parts of a document around a style block, the first of its kind.
structure Region.Parts (lines above : List Text) (header : Text) (body blanks below : List Text) :
    Prop where
  whole : lines = above ++ header :: (body ++ (blanks ++ below))
  first : ∀ line ∈ above, isStyleHeader line = false
  isHeader : isStyleHeader header = true
  plain : ∀ line ∈ body ++ blanks, isBoundaryLine line = false
  filled : ∀ line ∈ body.getLast?, isBlankLine line = false
  blank : ∀ line ∈ blanks, isBlankLine line = true
  stop : ∀ line ∈ below.head?, isBoundaryLine line = true

variable {source header : Text} {above body blanks below : List Text} {region : Region}

theorem regionsFrom_eq_nil {number : Nat} (absent : ∀ line ∈ above, isStyleHeader line = false) :
    regionsFrom number above = [] := by
  induction above generalizing number with
  | nil => rfl
  | cons line rest ih =>
    rw [regionsFrom, if_neg (by simp [absent line (by simp)])]
    exact ih fun later member => absent later (by simp [member])

theorem regionsFrom_append {number : Nat} (absent : ∀ line ∈ above, isStyleHeader line = false)
    (lines : List Text) :
    regionsFrom number (above ++ lines) = regionsFrom (number + above.length) lines := by
  induction above generalizing number with
  | nil => rfl
  | cons line rest ih =>
    rw [List.cons_append, regionsFrom, if_neg (by simp [absent line (by simp)]),
      ih fun later member => absent later (by simp [member]), List.length_cons]
    congr 1
    omega

namespace Region

theorem Parts.all (parts : Parts (splitLines source) above header body blanks below) :
    Region.all source =
      ⟨above.length + 1, above.length + 2 + body.length,
        above.length + 2 + (body ++ blanks).length⟩ ::
        regionsFrom (above.length + 2) (body ++ (blanks ++ below)) := by
  have inside : linesToBoundary (body ++ (blanks ++ below)) = body ++ blanks := by
    rw [← List.append_assoc, linesToBoundary_append parts.plain parts.stop]
  rw [Region.all, parts.whole, regionsFrom_append parts.first, regionsFrom, if_pos parts.isHeader]
  simp only [inside, dropBlankTail_append parts.blank parts.filled, Nat.add_comm 1 above.length]

theorem Parts.first? (parts : Parts (splitLines source) above header body blanks below) :
    Region.first? source = some ⟨above.length + 1, above.length + 2 + body.length,
      above.length + 2 + (body ++ blanks).length⟩ := by
  rw [Region.first?, parts.all, List.head?_cons]

theorem Parts.boundaryAfter (parts : Parts (splitLines source) above header body blanks below) :
    BlockMarkup.boundaryAfter (splitLines source) (above.length + 1) =
      above.length + 2 + (body ++ blanks).length := by
  have front : above.length + 1 = (above ++ [header]).length := by simp
  have cut : splitLines source = (above ++ [header]) ++ ((body ++ blanks) ++ below) := by
    simp [parts.whole]
  have rest : (splitLines source).drop (above.length + 1) = (body ++ blanks) ++ below := by
    rw [cut, front, List.drop_left]
  rw [BlockMarkup.boundaryAfter, rest, linesToBoundary_append parts.plain parts.stop]

theorem styleHeader_split (lines : List Text) :
    (∀ line ∈ lines, isStyleHeader line = false) ∨
      ∃ above header rest, lines = above ++ header :: rest ∧
        (∀ line ∈ above, isStyleHeader line = false) ∧ isStyleHeader header = true := by
  induction lines with
  | nil => exact .inl (by simp)
  | cons line rest ih =>
    cases here : isStyleHeader line with
    | true => exact .inr ⟨[], line, rest, rfl, by simp, here⟩
    | false =>
      rcases ih with none | ⟨above, header, below, rfl, first, isHeader⟩
      · exact .inl (by simpa [here] using none)
      · exact .inr ⟨line :: above, header, below, rfl, by simpa [here] using first, isHeader⟩

theorem first?_eq_none (absent : ∀ line ∈ splitLines source, isStyleHeader line = false) :
    Region.first? source = none := by
  rw [Region.first?, Region.all, regionsFrom_eq_nil absent, List.head?_nil]

theorem exists_parts (present : ¬∀ line ∈ splitLines source, isStyleHeader line = false) :
    ∃ above header body blanks below,
      Parts (splitLines source) above header body blanks below := by
  rcases styleHeader_split (splitLines source) with none | ⟨above, header, rest, cut, first, isHeader⟩
  · exact absurd none present
  obtain ⟨below, atBoundary, plain, stop⟩ := linesToBoundary_split rest
  obtain ⟨blanks, inside, blank, filled⟩ := dropBlankTail_split (linesToBoundary rest)
  refine ⟨above, header, dropBlankTail (linesToBoundary rest), blanks, below, ?_⟩
  refine ⟨?_, first, isHeader, ?_, filled, blank, stop⟩
  · rw [← List.append_assoc, ← inside, ← atBoundary, cut]
  · rw [← inside]
    exact plain

theorem first?_cases (source : Text) :
    (Region.first? source = none ∧ ∀ line ∈ splitLines source, isStyleHeader line = false) ∨
      ∃ above header body blanks below,
        Parts (splitLines source) above header body blanks below := by
  by_cases absent : ∀ line ∈ splitLines source, isStyleHeader line = false
  · exact .inl ⟨first?_eq_none absent, absent⟩
  · exact .inr (exists_parts absent)

end Region

theorem ofSource_of_parts
    (parts : Region.Parts (splitLines source) above header body blanks below) :
    Graph.ofSource source = .ofLines body := by
  have front : (above ++ header :: body).length = above.length + 1 + body.length := by
    simp only [List.length_append, List.length_cons]
    omega
  have whole : splitLines source = (above ++ header :: body) ++ (blanks ++ below) := by
    simp [parts.whole]
  have bodyEnd : above.length + 2 + body.length - 1 = (above ++ header :: body).length := by
    rw [front]
    omega
  have length : above.length + 1 = (above ++ [header]).length := by simp
  have split : above ++ header :: body = (above ++ [header]) ++ body := by simp
  rw [Graph.ofSource, parts.first?]
  dsimp only
  rw [Region.body, bodyEnd, whole, List.take_left, length, split, List.drop_left]

theorem ofSource_of_none (absent : Region.first? source = none) :
    Graph.ofSource source = .empty := by
  rw [Graph.ofSource, absent]

-- The lines that the first style header stands over, up to the next boundary.
def styleLines : List Text → List Text
  | [] => []
  | line :: rest =>
    if isStyleHeader line then dropBlankTail (linesToBoundary rest) else styleLines rest

theorem styleLines_append (absent : ∀ line ∈ above, isStyleHeader line = false)
    (lines : List Text) : styleLines (above ++ lines) = styleLines lines := by
  induction above with
  | nil => rfl
  | cons line rest ih =>
    rw [List.cons_append, styleLines, if_neg (by simp [absent line (by simp)])]
    exact ih fun later member => absent later (by simp [member])

theorem ofSource_eq_ofLines (source : Text) :
    Graph.ofSource source = .ofLines (styleLines (splitLines source)) := by
  rcases Region.first?_cases source with ⟨absent, none⟩ | ⟨above, header, body, blanks, below, parts⟩
  · have empty : styleLines (splitLines source) = [] := by
      have cut := styleLines_append none []
      rwa [List.append_nil] at cut
    rw [ofSource_of_none absent, empty]
    rfl
  · have inside : linesToBoundary (body ++ (blanks ++ below)) = body ++ blanks := by
      rw [← List.append_assoc, linesToBoundary_append parts.plain parts.stop]
    rw [ofSource_of_parts parts, parts.whole, styleLines_append parts.first, styleLines,
      if_pos parts.isHeader, inside, dropBlankTail_append parts.blank parts.filled]

theorem styleLines_under {front first second back : List Text}
    (opens : isBoundaryLine header = true) (noStyle : isStyleHeader header = false)
    (before : ∀ line ∈ first, isBoundaryLine line = false)
    (after : ∀ line ∈ second, isBoundaryLine line = false) :
    styleLines (front ++ header :: (first ++ back)) =
      styleLines (front ++ header :: (second ++ back)) := by
  have plain : ∀ {lines : List Text}, (∀ line ∈ lines, isBoundaryLine line = false) →
      ∀ line ∈ header :: lines, isStyleHeader line = false := by
    intro lines inside line member
    rcases List.mem_cons.mp member with rfl | later
    · exact noStyle
    · exact isStyleHeader_eq_false (inside line later)
  induction front with
  | nil =>
    rw [List.nil_append, List.nil_append, ← List.cons_append, ← List.cons_append,
      styleLines_append (plain before), styleLines_append (plain after)]
  | cons line rest ih =>
    rw [List.cons_append, List.cons_append, styleLines, styleLines, ih]
    have stopped : ∀ lines : List Text, linesToBoundary (rest ++ header :: lines) =
        linesToBoundary (rest ++ [header]) := by
      intro lines
      simp [linesToBoundary, List.takeWhile_append, opens]
    rw [stopped (first ++ back), stopped (second ++ back)]

end Style
end BlockMarkup
