import BlockMarkup.Proofs.Outline

namespace BlockMarkup

variable {source : Text} {lines : List Text} {number stop : Nat} {header : Header}

theorem lineAt?_drop (lines : List Text) (number index : Nat) :
    lineAt? lines (number + 1 + index) = (lines.drop number)[index]? := by
  rw [List.getElem?_drop, Nat.add_right_comm]
  rfl

theorem Heads.line_le (heads : Heads lines header) : header.line ≤ lines.length :=
  (exists_lineAt?_iff.mp heads.line_at).2

namespace Ends

theorem le_length (ends : Ends lines number stop) (within : number ≤ lines.length) :
    stop ≤ lines.length + 1 := by
  by_cases next : stop = number + 1
  · omega
  · have after := ends.after
    obtain ⟨line, there, _⟩ := ends.plain (stop - 1) (by omega) (by omega)
    have inside := (exists_lineAt?_iff.mp ⟨line, there⟩).2
    omega

theorem boundaryAt_or_over (ends : Ends lines number stop) (within : number ≤ lines.length) :
    BoundaryAt lines stop ∨ stop = lines.length + 1 := by
  have bound := ends.le_length within
  have after := ends.after
  by_cases last : stop = lines.length + 1
  · exact .inr last
  · obtain ⟨line, there⟩ : ∃ line, lineAt? lines stop = some line :=
      exists_lineAt?_iff.mpr ⟨by omega, by omega⟩
    exact .inl ⟨line, there, ends.boundary line there⟩

end Ends

namespace Style

def styleHeaders (lines : List Text) : List Header :=
  (headers lines).filter fun header => header.blockType = styleType

theorem mem_styleHeaders_iff :
    header ∈ styleHeaders lines ↔ Heads lines header ∧ header.blockType = styleType := by
  rw [styleHeaders, List.mem_filter, mem_headers_iff, decide_eq_true_eq]

end Style

def Header.toRegion (lines : List Text) (header : Header) : Style.Region :=
  ⟨header.line,
    header.line + 1 + (dropBlankTail (linesToBoundary (lines.drop header.line))).length,
    boundaryAfter lines header.line⟩

namespace Style

variable {region : Region}

theorem regionsFrom_eq (front lines : List Text) :
    regionsFrom (front.length + 1) lines =
      ((headersFrom (front.length + 1) lines).filter fun header => header.blockType = styleType).map
        (Header.toRegion (front ++ lines)) := by
  induction lines generalizing front with
  | nil => rfl
  | cons line rest ih =>
    have later := ih (front ++ [line])
    have below : (front ++ line :: rest).drop (front.length + 1) = rest := by
      simp [List.drop_append]
    rw [List.length_append, List.length_singleton, List.append_assoc, List.singleton_append] at later
    rw [regionsFrom, headersFrom, later, isStyleHeader]
    cases Line.classify line with
    | header blockType label =>
      by_cases style : blockType = styleType
      · simp [style, Header.toRegion, boundaryAfter, below]
      · simp [style]
    | _ => rfl

theorem Region.all_eq (source : Text) :
    Region.all source = (styleHeaders (splitLines source)).map (Header.toRegion (splitLines source)) :=
  regionsFrom_eq [] (splitLines source)

theorem Region.mem_all_iff : region ∈ Region.all source ↔ ∃ header,
    Heads (splitLines source) header ∧ header.blockType = styleType ∧
      header.toRegion (splitLines source) = region := by
  simp only [Region.all_eq, List.mem_map, mem_styleHeaders_iff, and_assoc]

structure Region.Exact (lines : List Text) (region : Region) : Prop where
  heads : ∃ label, Heads lines ⟨region.headerLine, styleType, label⟩
  afterHeader : region.headerLine < region.bodyEnd
  beforeEnd : region.bodyEnd ≤ region.endLine
  within : region.endLine ≤ lines.length + 1
  plain : ∀ number, region.headerLine < number → number < region.endLine → ¬BoundaryAt lines number
  stop : BoundaryAt lines region.endLine ∨ region.endLine = lines.length + 1
  blank : ∀ number, region.bodyEnd ≤ number → number < region.endLine →
    ∃ line, lineAt? lines number = some line ∧ isBlankLine line = true
  filled : ∃ line, lineAt? lines (region.bodyEnd - 1) = some line ∧ isBlankLine line = false

theorem blank_behind_body {inside : List Text} {index : Nat}
    (after : (dropBlankTail inside).length ≤ index) (before : index < inside.length) :
    ∃ line, inside[index]? = some line ∧ isBlankLine line = true := by
  obtain ⟨blanks, cut, blank, _⟩ := dropBlankTail_split inside
  refine ⟨inside[index], List.getElem?_eq_getElem before, ?_⟩
  have there := List.getElem_of_eq cut before
  rw [List.getElem_append_right after] at there
  rw [there]
  exact blank _ (List.getElem_mem _)

theorem length_dropBlankTail_le (inside : List Text) : (dropBlankTail inside).length ≤ inside.length := by
  obtain ⟨blanks, cut, _, _⟩ := dropBlankTail_split inside
  have whole := congrArg List.length cut
  rw [List.length_append] at whole
  omega

theorem filled_above_bodyEnd (heads : Heads lines header) :
    ∃ line, lineAt? lines ((header.toRegion lines).bodyEnd - 1) = some line ∧
      isBlankLine line = false := by
  obtain ⟨below, rest, _, _⟩ := linesToBoundary_split (lines.drop header.line)
  obtain ⟨blanks, inside, _, solid⟩ := dropBlankTail_split (linesToBoundary (lines.drop header.line))
  dsimp only [Header.toRegion]
  generalize dropBlankTail (linesToBoundary (lines.drop header.line)) = body at inside solid
  rcases List.eq_nil_or_concat body with rfl | ⟨front, last, rfl⟩
  · obtain ⟨line, there, boundary⟩ := heads.boundaryAt
    exact ⟨line, there, not_blank_of_boundary boundary⟩
  · rw [List.concat_eq_append] at inside solid ⊢
    have place : header.line + 1 + (front ++ [last]).length - 1 = header.line + 1 + front.length := by
      simp
    refine ⟨last, ?_, solid last (by simp)⟩
    rw [place, lineAt?_drop, rest, inside]
    simp

theorem Region.exact_toRegion (heads : Heads lines header) (style : header.blockType = styleType) :
    Region.Exact lines (header.toRegion lines) where
  heads := ⟨header.label, by rw [← style]; exact heads⟩
  afterHeader := by
    dsimp only [Header.toRegion]
    omega
  beforeEnd := Nat.add_le_add_left (length_dropBlankTail_le _) _
  within := (ends_boundaryAfter lines header.line).le_length heads.line_le
  plain := fun _ => (ends_boundaryAfter lines header.line).not_boundary
  stop := (ends_boundaryAfter lines header.line).boundaryAt_or_over heads.line_le
  blank := by
    intro number after before
    dsimp only [Header.toRegion, boundaryAfter] at after before
    obtain ⟨index, rfl⟩ : ∃ index, number = header.line + 1 + index :=
      Nat.exists_eq_add_of_le (by omega)
    have short : index < (linesToBoundary (lines.drop header.line)).length := by omega
    obtain ⟨line, there, blank⟩ := blank_behind_body (by omega) short
    obtain ⟨below, rest, _, _⟩ := linesToBoundary_split (lines.drop header.line)
    refine ⟨line, ?_, blank⟩
    rw [lineAt?_drop, rest, List.getElem?_append_left short, there]
  filled := filled_above_bodyEnd heads

theorem Region.exact_of_mem (member : region ∈ Region.all source) :
    Region.Exact (splitLines source) region := by
  obtain ⟨header, heads, style, rfl⟩ := Region.mem_all_iff.mp member
  exact Region.exact_toRegion heads style

theorem Region.Exact.body_cut (exact : Region.Exact lines region) :
    ∃ above below, lines = above ++ (region.body lines ++ below) ∧
      above.length = region.headerLine ∧
      (above ++ region.body lines).length + 1 = region.bodyEnd := by
  have after := exact.afterHeader
  have before := exact.beforeEnd
  have within := exact.within
  have front : lines.take region.headerLine =
      (lines.take (region.bodyEnd - 1)).take region.headerLine := by
    rw [List.take_take, Nat.min_eq_left (by omega)]
  have upTo : lines.take region.headerLine ++ region.body lines = lines.take (region.bodyEnd - 1) := by
    rw [Region.body, front, List.take_append_drop]
  refine ⟨lines.take region.headerLine, lines.drop (region.bodyEnd - 1), ?_, ?_, ?_⟩
  · rw [← List.append_assoc, upTo, List.take_append_drop]
  · rw [List.length_take]
    omega
  · rw [upTo, List.length_take]
    omega

theorem ofBody_joinLines (plain : ∀ line ∈ lines, '\n' ∉ line) :
    Graph.ofBody (joinLines lines) = .ofLines lines := by
  cases lines with
  | nil => rfl
  | cons first rest => rw [Graph.ofBody, splitLines_joinLines (List.cons_ne_nil first rest) plain]

def laterStyleWarning (number : Nat) : Diagnostic := ⟨.warning, number, laterStyleMessage⟩

theorem strayCloseMessage_ne (blockType : Text) : strayCloseMessage blockType ≠ laterStyleMessage := by
  intro same
  cases congrArg List.head? same

-- One style header goes without a warning, unless there was one above.
theorem laterStyle_warningsFrom (number : Nat) (opened : List Text) (styleSeen : Bool)
    (lines : List Text) :
    (warningsFrom number opened styleSeen lines).filter (fun found => found.message = laterStyleMessage) =
      (((headersFrom number lines).filter fun header => header.blockType = styleType).drop
        (if styleSeen then 0 else 1)).map fun header => laterStyleWarning header.line := by
  induction lines generalizing number opened styleSeen with
  | nil => simp [warningsFrom, headersFrom]
  | cons line rest ih =>
    rw [warningsFrom, headersFrom]
    cases Line.classify line with
    | header blockType label =>
      by_cases style : blockType = styleType
      · cases styleSeen with
        | true => simp [style, ih, laterStyleWarning]
        | false => simp [style, ih]
      · simp [style, ih]
    | close blockType =>
      dsimp only
      split
      · exact ih _ _ _
      · simp [strayCloseMessage_ne, ih]
    | property indent key value => exact ih _ _ _
    | blank => exact ih _ _ _
    | content => exact ih _ _ _

-- The style blocks are those of the style headers, in order, and each has exactly the lines up to the
-- next boundary. They are the style entries of the outline, all but the first are warned about, and the
-- lines in the body of the first make the graph.
theorem compileStyles_regions (source : Text) :
    ((Region.all source).map Region.headerLine).Pairwise (· < ·) ∧
      (∀ number, number ∈ (Region.all source).map Region.headerLine ↔
        ∃ label, Heads (splitLines source) ⟨number, styleType, label⟩) ∧
      (∀ region ∈ Region.all source, Region.Exact (splitLines source) region) ∧
      (Region.all source).map (fun region => (region.headerLine, region.endLine)) =
        ((compileStyles source).outline.filter fun entry => entry.blockType = styleType).map
          (fun entry => (entry.startLine, entry.endLine)) ∧
      (compileStyles source).diagnostics.filter (fun found => found.message = laterStyleMessage) =
        (Region.all source).tail.map (fun region => laterStyleWarning region.headerLine) ∧
      (Region.all source = [] → (compileStyles source).graph = .empty) ∧
      ∀ first others, Region.all source = first :: others →
        ∃ above body below, splitLines source = above ++ (body ++ below) ∧
          above.length = first.headerLine ∧ (above ++ body).length + 1 = first.bodyEnd ∧
          (compileStyles source).graph = .ofBody (joinLines body) := by
  have headerLines : (Region.all source).map Region.headerLine =
      (styleHeaders (splitLines source)).map Header.line := by
    rw [Region.all_eq, List.map_map]
    rfl
  refine ⟨?_, fun number => ?_, fun region => Region.exact_of_mem, ?_, ?_, fun none => ?_,
    fun first others cut => ?_⟩
  · rw [headerLines, List.pairwise_map]
    exact (headersFrom_sorted 1 (splitLines source)).filter _
  · rw [headerLines]
    constructor
    · intro member
      obtain ⟨⟨line, blockType, label⟩, found, rfl⟩ := List.mem_map.mp member
      obtain ⟨heads, rfl⟩ := mem_styleHeaders_iff.mp found
      exact ⟨label, heads⟩
    · rintro ⟨label, heads⟩
      exact List.mem_map.mpr ⟨_, mem_styleHeaders_iff.mpr ⟨heads, rfl⟩, rfl⟩
  · have entries : (compileStyles source).outline.filter (fun entry => entry.blockType = styleType) =
        (styleHeaders (splitLines source)).map (Header.toEntry (splitLines source)) := by
      change (outline source).filter _ = _
      rw [outline_eq, List.filter_map]
      rfl
    rw [entries, Region.all_eq, List.map_map, List.map_map]
    rfl
  · change (warningsFrom 1 [] false (splitLines source)).filter _ = _
    rw [laterStyle_warningsFrom, Region.all_eq, ← List.map_tail, List.map_map, ← List.drop_one]
    rfl
  · exact ofSource_of_none (by rw [Region.first?, none, List.head?_nil])
  · obtain ⟨above, below, whole, start, length⟩ :=
      (Region.exact_of_mem (cut ▸ List.mem_cons_self : first ∈ Region.all source)).body_cut
    have plain : ∀ line ∈ first.body (splitLines source), '\n' ∉ line := by
      intro line member
      refine newline_notMem_of_mem_splitLines (t := source) ?_
      rw [whole]
      simp [member]
    refine ⟨above, first.body (splitLines source), below, whole, start, length, ?_⟩
    have head : Region.first? source = some first := by rw [Region.first?, cut, List.head?_cons]
    change Graph.ofSource source = _
    rw [Graph.ofSource, head, ofBody_joinLines plain]

example :
    Region.all "--- style\n\n--- style\n.a\n  b: c\n\n--- /style\n".toList =
        [⟨1, 2, 3⟩, ⟨3, 6, 7⟩] := by
  decide

end Style
end BlockMarkup
