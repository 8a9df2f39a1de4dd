import BlockMarkup.Proofs.Block.Commute
import BlockMarkup.Proofs.Block.Moved
import BlockMarkup.Proofs.Session.Cursor

namespace BlockMarkup

variable {lines : List Text} {header : Header} {number : Nat}

theorem ne_of_ordinary {blockType reserved : Text} (ordinary : isReserved blockType = false)
    (member : reserved ∈ reservedTypes) : reserved ≠ blockType := by
  rintro rfl
  rw [isReserved, List.contains_iff_mem.mpr member] at ordinary
  cases ordinary

theorem IsOver.apart (isOver : IsOver lines number header) {other : Header}
    (heads : Heads lines other) (differ : other.blockType ≠ header.blockType) :
    other.line < header.line ∨ number < other.line := by
  by_cases upTo : other.line ≤ number
  · refine .inl (Nat.lt_of_le_of_ne (isOver.last other heads upTo) fun same => differ ?_)
    have both : some (Line.header other.blockType other.label) =
        some (Line.header header.blockType header.label) := by
      rw [← heads, ← isOver.heads, same]
    exact (Line.header.inj (Option.some.inj both)).1
  · exact .inr (Nat.lt_of_not_le upTo)

namespace Style

-- A new style block goes above the header of an ordinary block, or right below a boundary that is
-- past the line.
theorem insertionPoint_beside (isOver : IsOver lines number header)
    (ordinary : isReserved header.blockType = false) :
    insertionPoint lines < header.line ∨
      number < insertionPoint lines ∧ BoundaryAt lines (insertionPoint lines) := by
  have positive := isOver.heads.line_pos
  unfold insertionPoint
  split
  · rename_i used last
    obtain ⟨member, isUse⟩ := List.mem_filter.mp (List.mem_of_getLast? last)
    have heads := mem_headers_iff.mp member
    have differ : used.blockType ≠ header.blockType := by
      rw [of_decide_eq_true isUse]
      exact ne_of_ordinary ordinary (by decide)
    exact (isOver.apart heads differ).imp_right fun after => ⟨after, heads.boundaryAt⟩
  left
  dsimp only
  split
  · exact positive
  rename_i line rest cut
  split
  · rename_i blockType label kind
    split
    · rename_i isMeta
      -- The first boundary is the `meta` header, and the next one ends its block.
      have first := ends_boundaryAfter lines 0
      have next := ends_boundaryAfter lines ((linesToBoundary lines).length + 1)
      have below : lines.drop ((linesToBoundary lines).length + 1) = rest := by
        rw [← List.drop_drop, cut, List.drop_one, List.tail_cons]
      rw [boundaryAfter, List.drop_zero, Nat.zero_add, Nat.add_comm] at first
      rw [boundaryAfter, below] at next
      have heads : Heads lines ⟨(linesToBoundary lines).length + 1, blockType, label⟩ := by
        rw [Heads, lineAt?, ← List.head?_drop, cut, List.head?_cons, Option.map_some, kind]
      have notAbove := first.not_boundary positive
      have differ : blockType ≠ header.blockType := by
        rw [isMeta]
        exact ne_of_ordinary ordinary (by decide)
      have filled := dropBlankTail_length_le (linesToBoundary rest)
      rcases isOver.apart heads differ with past | before
      · apply Nat.lt_of_not_le
        intro within
        exact next.not_boundary past (by omega) isOver.heads.boundaryAt
      · have above := isOver.above
        dsimp only at before
        exact absurd isOver.heads.boundaryAt (notAbove (by omega))
    · exact positive
  · exact positive

section parts

variable {indent : Nat} {source : Text} {graph : Graph} {edit : Edit} {patch : Patch}
variable {above body blanks below : List Text} {styled : Text}

theorem region_beside
    (parts : Region.Parts (splitLines source) above styled body blanks below)
    (isOver : IsOver (splitLines source) number header)
    (ordinary : isReserved header.blockType = false) :
    above.length + (styled :: body).length < header.line ∨ number ≤ above.length := by
  obtain ⟨label, kind⟩ := classify_of_isStyleHeader parts.isHeader
  have heads : Heads (splitLines source) ⟨above.length + 1, styleType, label⟩ := by
    simp [Heads, lineAt?, parts.whole, kind]
  have ends := ends_boundaryAfter (splitLines source) (above.length + 1)
  rw [parts.boundaryAfter, List.length_append] at ends
  rw [List.length_cons]
  have differ : styleType ≠ header.blockType := ne_of_ordinary ordinary (by decide)
  rcases isOver.apart heads differ with past | before
  · left
    apply Nat.lt_of_not_le
    intro within
    exact ends.not_boundary past (by omega) isOver.heads.boundaryAt
  · exact .inr (Nat.le_of_lt_succ before)

-- An accepted edit that changes the text writes over lines beside the block, and when they are below
-- it the block still shows the same properties.
theorem spliced_beside (accepted : Style.patch indent source graph edit = .ok patch)
    (changed : patch.text ≠ source) (isOver : IsOver (splitLines source) number header)
    (ordinary : isReserved header.blockType = false) :
    ∃ above removed added below, Spliced source patch above removed added below ∧
      (above.length + removed.length < header.line ∨
        number ≤ above.length ∧
          pairs ((above ++ (added ++ below)).drop header.line) =
            pairs ((above ++ (removed ++ below)).drop header.line)) := by
  have upTo := isOver.above
  obtain ⟨_, ⟨_, rfl⟩ | ⟨_, rfl⟩⟩ := patch_cases accepted
  · exact absurd rfl changed
  rcases Region.first?_cases source with ⟨absent, _⟩ | ⟨above, styled, body, blanks, below, parts⟩
  · by_cases filled : (edit.applyTo graph).bodyLines indent = []
    · rw [writeBlock_of_none absent, if_pos filled] at changed
      exact absurd rfl changed
    refine ⟨_, _, _, _, spliced_inserted absent rfl filled rfl, ?_⟩
    rw [List.length_take, Nat.min_eq_left (insertionPoint_le _)]
    rcases insertionPoint_beside isOver ordinary with past | ⟨before, line, there, boundary⟩
    · exact .inl past
    · refine .inr ⟨Nat.le_of_lt before, ?_⟩
      obtain ⟨front, rest, whole, place⟩ := exists_cut_of_lineAt? there
      have cut : (splitLines source).take (insertionPoint (splitLines source)) = front ++ [line] := by
        rw [place, whole, List.take_length_add_append, List.take_succ_cons, List.take_zero]
      have shown : ∀ tail : List Text, pairs ((front ++ [line] ++ tail).drop header.line) =
          pairs (front.drop header.line) := by
        intro tail
        rw [List.append_assoc, List.drop_append_of_le_length (by omega), List.singleton_append,
          pairs_append_boundary (by simpa using boundary)]
      rw [cut, shown, shown]
  · refine ⟨_, _, _, _, spliced_writeBlock parts, ?_⟩
    refine (region_beside parts isOver ordinary).imp_right fun before => ⟨before, ?_⟩
    have stop : ∀ line ∈ ([] ++ styled :: (body ++ (blanks ++ below))).head?,
        isBoundaryLine line = true := by
      intro line first
      cases first
      exact isBoundaryLine_of_isStyleHeader parts.isHeader
    obtain ⟨gap, rest, cut, blank, _, ends⟩ :=
      Block.gap_of_written parts stop ((edit.applyTo graph).bodyLines indent)
    rw [List.nil_append] at cut
    rw [cut, List.drop_append_of_le_length (Nat.le_trans upTo before),
      List.drop_append_of_le_length (Nat.le_trans upTo before), pairs_append_gap blank ends,
      pairs_append_boundary]
    exact stop

theorem Spliced.drop_shiftLine {above removed added below : List Text}
    (spliced : Spliced source patch above removed added below)
    (past : above.length + removed.length < number) (inside : number ≤ lineCount source) :
    (splitLines patch.text).drop (patch.shiftLine number) = (splitLines source).drop number := by
  have present := spliced.ne_nil (Nat.zero_lt_of_lt past) inside (.inr past)
  have rest : ∀ (middle : List Text) (index : Nat),
      (above ++ (middle ++ below)).drop (above.length + middle.length + index) =
        below.drop index := by
    intro middle index
    rw [← List.append_assoc, ← List.length_append, List.drop_length_add_append]
  have moved := spliced.shiftLine_below past inside
  obtain ⟨index, rfl⟩ := Nat.exists_eq_add_of_le (Nat.le_of_lt past)
  have place : patch.shiftLine (above.length + removed.length + index) =
      above.length + added.length + index := by omega
  rw [spliced.lines present, place, spliced.before, rest, rest]

theorem Spliced.locate?_beside {above removed added below : List Text}
    (spliced : Spliced source patch above removed added below)
    (isOver : IsOver (splitLines source) number header) (within : number ≤ lineCount source)
    (noStyle : header.blockType ≠ styleType)
    (beside : above.length + removed.length < header.line ∨
      number ≤ above.length ∧
        pairs ((above ++ (added ++ below)).drop header.line) =
          pairs ((above ++ (removed ++ below)).drop header.line)) :
    ∃ after, Block.locate? patch.text (patch.shiftLine number) = some after ∧
      after.startLine = patch.shiftLine header.line ∧ after.blockType = header.blockType ∧
      after.label = header.label ∧
      after.properties = (Block.ofHeader (splitLines source) header number).properties := by
  have start := isOver.heads.line_pos
  have upTo := isOver.above
  have outside : ∀ line, header.line ≤ line → line ≤ number →
      line ≤ above.length ∨ above.length + removed.length < line := by
    intro line after before
    rcases beside with past | ⟨before, _⟩
    · exact .inr (by omega)
    · exact .inl (by omega)
  obtain ⟨_, inRange⟩ := spliced.shiftLine_inRange (by omega) within (outside number upTo (by omega))
  have heads : Heads (splitLines patch.text) { header with line := patch.shiftLine header.line } := by
    rw [Heads, spliced.lineAt?_shiftLine start (by omega) (outside _ (by omega) upTo)]
    exact isOver.heads
  obtain ⟨count, rfl⟩ := Nat.exists_eq_add_of_le upTo
  rcases beside with past | ⟨before, shown⟩
  · have drop := spliced.drop_shiftLine past (by omega)
    have moved : patch.shiftLine (header.line + count) = patch.shiftLine header.line + count := by
      rw [spliced.shiftLine_below (by omega) within, spliced.shiftLine_below past (by omega)]
      omega
    rw [moved] at inRange ⊢
    exact locate?_moved (isOver.moved heads (by rw [drop])) inRange noStyle upTo (by rw [drop])
  · have lines := spliced.lines (spliced.ne_nil start (by omega) (.inl (by omega)))
    rw [spliced.shiftLine_above before] at inRange ⊢
    rw [spliced.shiftLine_above (by omega)] at heads ⊢
    refine locate?_moved (isOver.moved heads ?_) inRange noStyle upTo ?_
    · rw [lines, spliced.before, List.take_drop, List.take_drop,
        List.take_append_of_le_length before, List.take_append_of_le_length before]
    · rw [lines, spliced.before, shown]

theorem Patch.shiftLine_of_same (accepted : Style.patch indent source graph edit = .ok patch)
    (same : patch.text = source) (positive : 1 ≤ number) : patch.shiftLine number = number := by
  have delta : patch.delta = 0 := by rw [patch_delta accepted, same, lineDelta, Int.sub_self]
  rw [Patch.shiftLine, delta]
  split
  · omega
  · rfl

theorem ordinary_of_refusal? (allowed : edit.refusal? = none) :
    isReserved (trim edit.blockType) = false := by
  unfold Edit.refusal? at allowed
  split at allowed
  · cases allowed
  split at allowed
  · cases allowed
  rename_i ordinary
  exact Bool.not_eq_true _ ▸ ordinary

end parts

end Style

namespace Session

variable {compile : Compiler} {session next : Session compile} {target property value : Text}
variable {patch : Style.Patch}

theorem setStyle_eq_ok (inRange : session.InRange)
    (styled : session.setStyle target property value = (next, .ok patch)) :
    ∃ block, session.cursorBlock? = some block ∧
      Style.patch session.indent session.source session.graph
        (styleEdit block target property value) = .ok patch ∧
      next.source = patch.text ∧ next.cursor = patch.shiftLine session.cursor := by
  unfold setStyle requireBlock at styled
  cases found : session.cursorBlock? with
  | none =>
    rw [found] at styled
    cases styled
  | some block =>
    simp only [found, applyStyle] at styled
    refine ⟨block, rfl, ?_⟩
    split at styled
    · cases styled
    · rename_i given accepted
      split at styled
      · rename_i same
        cases styled
        exact ⟨accepted, same.symm, (Style.Patch.shiftLine_of_same accepted same inRange.1).symm⟩
      · cases styled
        exact ⟨accepted, rfl, rfl⟩

-- A style edit of the block at the cursor leaves the cursor on its line, and at the cursor the block
-- that was there, with its header where the edit says that the header moved to.
theorem setStyle_follows (inRange : session.InRange)
    (styled : session.setStyle target property value = (next, .ok patch)) :
    (∃ line, lineAt? (splitLines session.source) session.cursor = some line ∧
        lineAt? (splitLines next.source) next.cursor = some line) ∧
      ∃ before after, session.cursorBlock? = some before ∧ next.cursorBlock? = some after ∧
        after.startLine = patch.shiftLine before.startLine ∧ after.blockType = before.blockType ∧
        after.label = before.label ∧ after.isSpecial = before.isSpecial ∧
        after.properties = before.properties := by
  obtain ⟨block, found, accepted, source, cursor⟩ := setStyle_eq_ok inRange styled
  obtain ⟨positive, within⟩ := inRange
  obtain ⟨header, isOver, noStyle, rfl⟩ := (locate?_eq_some_iff within).mp found
  have ordinary : isReserved header.blockType = false := by
    have allowed := Style.ordinary_of_refusal? (Style.patch_cases accepted).1
    have type : trim header.blockType = header.blockType :=
      (trimmed_of_locate? found).trim_blockType
    rwa [styleEdit, Block.ofHeader, type] at allowed
  obtain ⟨line, here⟩ := exists_lineAt?_iff.mpr ⟨positive, within⟩
  have start := isOver.heads.line_pos
  by_cases same : patch.text = session.source
  · have still : ∀ {line : Nat}, 1 ≤ line → patch.shiftLine line = line :=
      Style.Patch.shiftLine_of_same accepted same
    rw [still positive] at cursor
    have stays : next.cursorBlock? = session.cursorBlock? := by
      rw [cursorBlock?, cursorBlock?, cursor, source, same]
    rw [cursor, source, same, stays]
    exact ⟨⟨line, here, here⟩, _, _, found, found, (still start).symm, rfl, rfl, rfl, rfl⟩
  · obtain ⟨above, removed, added, below, spliced, beside⟩ :=
      Style.spliced_beside accepted same isOver ordinary
    have upTo := isOver.above
    have outside : session.cursor ≤ above.length ∨ above.length + removed.length < session.cursor :=
      beside.symm.imp And.left fun past => by omega
    obtain ⟨after, located, startLine, blockType, label, properties⟩ :=
      spliced.locate?_beside isOver within noStyle beside
    refine ⟨?_, _, after, found, ?_, startLine, blockType, label, ?_, properties⟩
    · rw [source, cursor, spliced.lineAt?_shiftLine positive within outside]
      exact ⟨line, here, here⟩
    · rw [cursorBlock?, source, cursor, located]
    · rw [Block.isSpecial, blockType]
      rfl

def belowStyle : Session compileStyles :=
  (start compileStyles
    "--- style\ncore/card\n  color: red\n\n--- core/card: s1\nsize: 1\n--- /core/card\nHi".toList
    Style.defaultIndent .default).setCursor 8

def headerBrought : Style.Patch :=
  { text := ("--- style\ncore/card\n  color: red\ncore/card:s1\n  color: x\n--- y\n\n".toList ++
      "--- core/card: s1\nsize: 1\n--- /core/card\nHi".toList)
    graph := ⟨[], [⟨⟨"core/card".toList, Style.selfTarget, none⟩,
        .ofList [("color".toList, "red".toList)]⟩,
      ⟨⟨"core/card".toList, Style.selfTarget, some "s1".toList⟩,
        .ofList [("color".toList, "x\n--- y".toList)]⟩]⟩
    delta := 3
    shiftFrom := 4 }

theorem setStyle_follows_belowStyle :
    belowStyle.InRange ∧
      ∃ next, belowStyle.setStyle Style.selfTarget "color".toList "x\n--- y".toList =
          (next, .ok headerBrought) ∧
        lineAt? (splitLines next.source) next.cursor = some "Hi".toList ∧
        ∃ after, next.cursorBlock? = some after ∧ after.startLine = 8 ∧
          after.label = some "s1".toList := by
  have inRange : belowStyle.InRange := by decide +kernel
  have answer : (belowStyle.setStyle Style.selfTarget "color".toList "x\n--- y".toList).2 =
      .ok headerBrought := by decide +kernel
  have line : lineAt? (splitLines belowStyle.source) belowStyle.cursor = some "Hi".toList := by
    decide +kernel
  have block : belowStyle.cursorBlock?.map (fun block => (block.startLine, block.label)) =
      some (5, some "s1".toList) := by decide +kernel
  have styled : belowStyle.setStyle Style.selfTarget "color".toList "x\n--- y".toList =
      ((belowStyle.setStyle Style.selfTarget "color".toList "x\n--- y".toList).1,
        .ok headerBrought) := Prod.ext rfl answer
  obtain ⟨⟨_, here, there⟩, before, after, found, located, start, _, label, _⟩ :=
    setStyle_follows inRange styled
  rw [line] at here
  rw [found, Option.map_some, Option.some.injEq, Prod.mk.injEq] at block
  rw [block.1] at start
  exact ⟨inRange, _, styled, there.trans here.symm, after, located, start, label.trans block.2⟩

end Session
end BlockMarkup
