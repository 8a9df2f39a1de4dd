import BlockMarkup.Block.Locate
import BlockMarkup.Proofs.Style.Region

namespace BlockMarkup

variable {lines : List Text} {number : Nat}

theorem headersFrom_append (number : Nat) (front back : List Text) :
    headersFrom number (front ++ back) =
      headersFrom number front ++ headersFrom (number + front.length) back := by
  induction front generalizing number with
  | nil => rfl
  | cons line rest ih =>
    have next : number + 1 + rest.length = number + (line :: rest).length := by
      rw [List.length_cons]
      omega
    rw [List.cons_append, headersFrom, headersFrom, ih, next]
    split <;> rfl

theorem exists_of_mem_headersFrom {header : Header} (member : header ∈ headersFrom number lines) :
    ∃ above line below, lines = above ++ line :: below ∧ header.line = number + above.length ∧
      Line.classify line = .header header.blockType header.label := by
  induction lines generalizing number with
  | nil => cases member
  | cons first rest ih =>
    have later : header ∈ headersFrom (number + 1) rest →
        ∃ above line below, first :: rest = above ++ line :: below ∧
          header.line = number + above.length ∧
          Line.classify line = .header header.blockType header.label := by
      intro inside
      obtain ⟨above, line, below, cut, place, heads⟩ := ih inside
      refine ⟨first :: above, line, below, by rw [cut, List.cons_append], ?_, heads⟩
      rw [place, List.length_cons]
      omega
    rw [headersFrom] at member
    split at member
    · rename_i blockType label heads
      rcases List.mem_cons.mp member with rfl | inside
      · exact ⟨[], first, rest, rfl, rfl, heads⟩
      · exact later inside
    · exact later member

theorem exists_cut_of_lineAt? {line : Text} (there : lineAt? lines number = some line) :
    ∃ above below, lines = above ++ line :: below ∧ number = above.length + 1 := by
  cases number with
  | zero => cases there
  | succ index =>
    obtain ⟨inRange, found⟩ := List.getElem?_eq_some_iff.mp there
    refine ⟨lines.take index, lines.drop (index + 1), ?_, ?_⟩
    · rw [← found, List.getElem_cons_drop, List.take_append_drop]
    · rw [List.length_take, Nat.min_eq_left (Nat.le_of_lt inRange)]

theorem isBoundaryLine_of_header {line blockType : Text} {label : Option Text}
    (heads : Line.classify line = .header blockType label) : isBoundaryLine line = true := by
  simp [isBoundaryLine, heads, Line.isBoundary]

namespace Block

-- The parts of a document around the block that a header opens.
structure Parts (lines : List Text) (named : Header) (above : List Text) (line : Text)
    (inside below : List Text) : Prop where
  whole : lines = above ++ line :: (inside ++ below)
  place : named.line = above.length + 1
  heads : Line.classify line = .header named.blockType named.label
  noStyle : named.blockType ≠ styleType
  plain : ∀ line ∈ inside, isBoundaryLine line = false
  stop : ∀ line ∈ below.head?, isBoundaryLine line = true

variable {text line : Text} {named : Header} {above inside below : List Text}

namespace Parts

theorem drop_header (parts : Parts lines named above line inside below) :
    lines.drop named.line = inside ++ below := by
  have front : named.line = (above ++ [line]).length := by simp [parts.place]
  have cut : lines = (above ++ [line]) ++ (inside ++ below) := by simp [parts.whole]
  rw [front, cut, List.drop_left]

theorem take_header (parts : Parts lines named above line inside below) :
    lines.take named.line = above ++ [line] := by
  have front : named.line = (above ++ [line]).length := by simp [parts.place]
  have cut : lines = (above ++ [line]) ++ (inside ++ below) := by simp [parts.whole]
  rw [front, cut, List.take_left]

theorem line_le (parts : Parts lines named above line inside below) :
    named.line ≤ lines.length := by
  rw [parts.place, parts.whole, List.length_append, List.length_cons]
  omega

theorem boundaryAfter (parts : Parts lines named above line inside below) :
    BlockMarkup.boundaryAfter lines named.line = named.line + 1 + inside.length := by
  rw [BlockMarkup.boundaryAfter, parts.drop_header, linesToBoundary_append parts.plain parts.stop]

theorem propertyCluster (parts : Parts lines named above line inside below) {stop : Nat}
    (within : stop ≤ named.line + 1 + inside.length) :
    BlockMarkup.propertyCluster lines named.line stop =
      clusterFrom (named.line + 1) (inside.take (stop - 1 - named.line)) := by
  have short : stop - 1 - named.line ≤ inside.length := by omega
  rw [BlockMarkup.propertyCluster, List.drop_take, parts.drop_header,
    List.take_append_of_le_length short]

theorem headerAtOrAbove? (parts : Parts lines named above line inside below) :
    BlockMarkup.headerAtOrAbove? lines named.line = some named := by
  have last : headersFrom (1 + above.length) [line] = [named] := by
    rw [headersFrom, parts.heads, Nat.add_comm 1, ← parts.place]
    rfl
  rw [BlockMarkup.headerAtOrAbove?, parts.take_header, headers, headersFrom_append, last,
    List.getLast?_concat]

theorem isStyleHeader_eq_false (parts : Parts lines named above line inside below) :
    Style.isStyleHeader line = false := by
  simp [Style.isStyleHeader, parts.heads, parts.noStyle]

theorem text_ne_nil (parts : Parts (splitLines text) named above line inside below) :
    text ≠ [] := by
  intro empty
  have heads := parts.heads
  have only : line = [] := by
    have member : line ∈ splitLines text := by
      rw [parts.whole]
      simp
    rw [empty] at member
    exact List.mem_singleton.mp member
  rw [only] at heads
  cases heads

end Parts

def shown (named : Header) (inside : List Text) : Block where
  blockType := named.blockType
  startLine := named.line
  endLine := named.line + 1 + inside.length
  properties := readProperties (clusterFrom (named.line + 1) inside)
  label := named.label

theorem Parts.locate? (parts : Parts (splitLines text) named above line inside below) :
    Block.locate? text named.line = some (shown named inside) := by
  have whole : named.line + 1 + inside.length - 1 - named.line = inside.length := by omega
  simp only [Block.locate?, if_neg parts.text_ne_nil, Nat.min_eq_left parts.line_le,
    parts.headerAtOrAbove?, if_neg parts.noStyle, ofHeader, parts.boundaryAfter,
    parts.propertyCluster (Nat.le_refl _), whole, List.take_length, shown]

theorem exists_parts_of_header {blockType : Text} {label : Option Text} {start : Nat}
    (heads : (lineAt? lines start).map Line.classify = some (.header blockType label))
    (noStyle : blockType ≠ styleType) :
    ∃ above line inside below, Parts lines ⟨start, blockType, label⟩ above line inside below := by
  obtain ⟨line, there, kind⟩ := Option.map_eq_some_iff.mp heads
  obtain ⟨above, rest, rfl, place⟩ := exists_cut_of_lineAt? there
  obtain ⟨below, cut, plain, stop⟩ := linesToBoundary_split rest
  exact ⟨above, line, linesToBoundary rest, below, by rw [← cut], place, kind, noStyle, plain, stop⟩

theorem exists_parts_of_locate? {block : Block} {start : Nat}
    (located : Block.locate? text start = some block) (here : block.startLine = start) :
    ∃ named above line inside below,
      Parts (splitLines text) named above line inside below ∧ named.line = start := by
  unfold Block.locate? at located
  split at located
  · cases located
  dsimp only at located
  split at located
  · cases located
  rename_i found last
  split at located
  · cases located
  rename_i noStyle
  cases located
  have line : found.line = start := here
  have member : found ∈ headers ((splitLines text).take (min start (splitLines text).length)) :=
    List.mem_of_getLast? last
  obtain ⟨above, header, below, cut, place, heads⟩ := exists_of_mem_headersFrom member
  have whole : splitLines text = above ++ header :: (below ++
      (splitLines text).drop (min start (splitLines text).length)) := by
    rw [← List.cons_append, ← List.append_assoc, ← cut, List.take_append_drop]
  have there : lineAt? (splitLines text) start = some header := by
    rw [← line, place, whole, Nat.add_comm 1]
    simp [lineAt?]
  have isHeader : (lineAt? (splitLines text) start).map Line.classify =
      some (.header found.blockType found.label) := by
    rw [there, Option.map_some, heads]
  obtain ⟨_, _, _, _, parts⟩ := exists_parts_of_header isHeader noStyle
  exact ⟨_, _, _, _, _, parts, rfl⟩

end Block
end BlockMarkup
