import BlockMarkup.Document.Outline
import BlockMarkup.Proofs.Block.Locate

namespace BlockMarkup

variable {lines : List Text} {text : Text} {number stop : Nat} {header : Header}

def Heads (lines : List Text) (header : Header) : Prop :=
  (lineAt? lines header.line).map Line.classify = some (.header header.blockType header.label)

def BoundaryAt (lines : List Text) (number : Nat) : Prop :=
  ∃ line, lineAt? lines number = some line ∧ isBoundaryLine line = true

theorem Heads.line_at (heads : Heads lines header) : ∃ line, lineAt? lines header.line = some line := by
  obtain ⟨line, there, _⟩ := Option.map_eq_some_iff.mp heads
  exact ⟨line, there⟩

theorem Heads.line_pos (heads : Heads lines header) : 0 < header.line := by
  obtain ⟨line, there⟩ := heads.line_at
  exact lineAt?_pos there

theorem Heads.boundaryAt (heads : Heads lines header) : BoundaryAt lines header.line := by
  obtain ⟨line, there, kind⟩ := Option.map_eq_some_iff.mp heads
  exact ⟨line, there, isBoundaryLine_of_header kind⟩

theorem mem_headers_iff : header ∈ headers lines ↔ Heads lines header := by
  constructor
  · intro member
    obtain ⟨above, line, below, rfl, place, kind⟩ := exists_of_mem_headersFrom member
    rw [Heads, place, Nat.add_comm]
    simp [lineAt?, kind]
  · intro heads
    obtain ⟨line, there, kind⟩ := Option.map_eq_some_iff.mp heads
    obtain ⟨above, below, rfl, place⟩ := exists_cut_of_lineAt? there
    rw [headers, headersFrom_append, headersFrom, kind, Nat.add_comm 1, ← place]
    exact List.mem_append_right _ List.mem_cons_self

theorem headersFrom_sorted (number : Nat) (lines : List Text) :
    (headersFrom number lines).Pairwise fun first second => first.line < second.line := by
  induction lines generalizing number with
  | nil => exact .nil
  | cons line rest ih =>
    rw [headersFrom]
    split
    · refine .cons (fun later member => ?_) (ih (number + 1))
      obtain ⟨_, _, _, _, place, _⟩ := exists_of_mem_headersFrom member
      dsimp only
      omega
    · exact ih (number + 1)

theorem before_getLast? {α : Type} {items : List α} {before : α → α → Prop} {last item : α}
    (ordered : items.Pairwise before) (found : items.getLast? = some last) (member : item ∈ items) :
    before item last ∨ item = last := by
  obtain ⟨front, rfl⟩ := List.getLast?_eq_some_iff.mp found
  rcases List.mem_append.mp member with early | same
  · exact .inl ((List.pairwise_append.mp ordered).2.2 item early last (List.mem_singleton_self last))
  · exact .inr (List.mem_singleton.mp same)

structure IsOver (lines : List Text) (number : Nat) (header : Header) : Prop where
  heads : Heads lines header
  above : header.line ≤ number
  last : ∀ other, Heads lines other → other.line ≤ number → other.line ≤ header.line

theorem mem_headers_take_iff :
    header ∈ headers (lines.take number) ↔ Heads lines header ∧ header.line ≤ number := by
  rw [mem_headers_iff, Heads, Heads]
  cases header.line with
  | zero => simp [lineAt?]
  | succ index =>
    rw [lineAt?, lineAt?, List.getElem?_take]
    split
    · rename_i inside
      simp [Nat.succ_le_of_lt inside]
    · rename_i outside
      have past : ¬index + 1 ≤ number := outside
      simp [past]

theorem headerAtOrAbove?_eq_none_iff :
    headerAtOrAbove? lines number = none ↔ ∀ header, Heads lines header → number < header.line := by
  rw [headerAtOrAbove?, List.getLast?_eq_none_iff, List.eq_nil_iff_forall_not_mem]
  simp only [mem_headers_take_iff, not_and, Nat.not_le]

theorem headerAtOrAbove?_eq_some_iff :
    headerAtOrAbove? lines number = some header ↔ IsOver lines number header := by
  have ordered : (headers (lines.take number)).Pairwise fun first second => first.line < second.line :=
    headersFrom_sorted 1 (lines.take number)
  constructor
  · intro found
    obtain ⟨heads, above⟩ := mem_headers_take_iff.mp (List.mem_of_getLast? found)
    refine ⟨heads, above, fun other otherHeads otherAbove => ?_⟩
    have member := mem_headers_take_iff.mpr ⟨otherHeads, otherAbove⟩
    rcases before_getLast? ordered found member with before | rfl
    · exact Nat.le_of_lt before
    · exact Nat.le_refl _
  · intro isOver
    cases found : headerAtOrAbove? lines number with
    | none =>
      have past := headerAtOrAbove?_eq_none_iff.mp found header isOver.heads
      exact absurd isOver.above (Nat.not_le.mpr past)
    | some last =>
      obtain ⟨heads, above⟩ := mem_headers_take_iff.mp (List.mem_of_getLast? found)
      have notLater := isOver.last last heads above
      have member := mem_headers_take_iff.mpr ⟨isOver.heads, isOver.above⟩
      rcases before_getLast? ordered found member with before | rfl
      · omega
      · rfl

-- The lines after `number` and before `stop` are no boundary, and at `stop` there is one or the
-- document is over.
structure Ends (lines : List Text) (number stop : Nat) : Prop where
  after : number < stop
  plain : ∀ between, number < between → between < stop →
    ∃ line, lineAt? lines between = some line ∧ isBoundaryLine line = false
  boundary : ∀ line ∈ lineAt? lines stop, isBoundaryLine line = true

theorem ends_boundaryAfter (lines : List Text) (number : Nat) :
    Ends lines number (boundaryAfter lines number) := by
  obtain ⟨rest, cut, plain, stop⟩ := linesToBoundary_split (lines.drop number)
  have place : ∀ index, lineAt? lines (number + 1 + index) =
      (linesToBoundary (lines.drop number) ++ rest)[index]? := by
    intro index
    rw [← cut, List.getElem?_drop, Nat.add_right_comm]
    rfl
  refine ⟨?_, ?_, ?_⟩
  · rw [boundaryAfter]
    omega
  · intro between after before
    rw [boundaryAfter] at before
    have inside : between - (number + 1) < (linesToBoundary (lines.drop number)).length := by omega
    have there := place (between - (number + 1))
    rw [Nat.add_sub_cancel' after, List.getElem?_append_left inside,
      List.getElem?_eq_getElem inside] at there
    exact ⟨_, there, plain _ (List.getElem_mem inside)⟩
  · rw [boundaryAfter, place, List.getElem?_append_right (Nat.le_refl _), Nat.sub_self,
      ← List.head?_eq_getElem?]
    exact stop

namespace Ends

theorem not_boundary (ends : Ends lines number stop) {between : Nat} (after : number < between)
    (before : between < stop) : ¬BoundaryAt lines between := by
  rintro ⟨line, there, boundary⟩
  obtain ⟨other, same, plain⟩ := ends.plain between after before
  rw [there, Option.some.injEq] at same
  rw [same, plain] at boundary
  cases boundary

theorem le {start other : Nat} (ends : Ends lines start stop) (above : start ≤ number)
    (others : Ends lines number other) : stop ≤ other := by
  apply Nat.le_of_not_lt
  intro before
  obtain ⟨line, there, plain⟩ := ends.plain other (Nat.lt_of_le_of_lt above others.after) before
  rw [others.boundary line there] at plain
  cases plain

theorem eq_boundaryAfter (ends : Ends lines number stop) : stop = boundaryAfter lines number :=
  Nat.le_antisymm (ends.le (Nat.le_refl number) (ends_boundaryAfter lines number))
    ((ends_boundaryAfter lines number).le (Nat.le_refl number) ends)

theorem later (ends : Ends lines number stop) {between : Nat} (after : number ≤ between)
    (before : between < stop) : Ends lines between stop :=
  ⟨before, fun line past => ends.plain line (Nat.lt_of_le_of_lt after past), ends.boundary⟩

end Ends

theorem boundaryAfter_le {start : Nat} (above : start ≤ number) :
    boundaryAfter lines start ≤ boundaryAfter lines number :=
  (ends_boundaryAfter lines start).le above (ends_boundaryAfter lines number)

def OutlineEntry.toHeader (entry : OutlineEntry) : Header :=
  ⟨entry.startLine, entry.blockType, entry.label⟩

def Header.toEntry (lines : List Text) (header : Header) : OutlineEntry :=
  ⟨header.blockType, header.label, header.line, boundaryAfter lines header.line⟩

theorem outlineFrom_eq (front lines : List Text) :
    outlineFrom (front.length + 1) lines =
      (headersFrom (front.length + 1) lines).map (Header.toEntry (front ++ lines)) := by
  induction lines generalizing front with
  | nil => rfl
  | cons line rest ih =>
    have later := ih (front ++ [line])
    have rest_eq : (front ++ line :: rest).drop (front.length + 1) = rest := by
      simp [List.drop_append]
    rw [List.length_append, List.length_singleton, List.append_assoc, List.singleton_append] at later
    rw [outlineFrom, headersFrom, later]
    cases Line.classify line with
    | header blockType label => simp [Header.toEntry, boundaryAfter, rest_eq]
    | _ => rfl

theorem outline_eq (text : Text) :
    outline text = (headers (splitLines text)).map (Header.toEntry (splitLines text)) :=
  outlineFrom_eq [] (splitLines text)

structure Outlined (lines : List Text) (entries : List OutlineEntry) : Prop where
  heads : ∀ header, Heads lines header ↔ header ∈ entries.map OutlineEntry.toHeader
  filled : ∀ entry ∈ entries, entry.startLine < entry.endLine
  apart : entries.Pairwise fun first second => first.endLine ≤ second.startLine

theorem outlined (text : Text) : Outlined (splitLines text) (outline text) := by
  rw [outline_eq]
  refine ⟨fun header => ?_, ?_, ?_⟩
  · have same : OutlineEntry.toHeader ∘ Header.toEntry (splitLines text) = id := rfl
    rw [List.map_map, same, List.map_id, mem_headers_iff]
  · intro entry member
    obtain ⟨header, _, rfl⟩ := List.mem_map.mp member
    exact (ends_boundaryAfter (splitLines text) header.line).after
  · rw [List.pairwise_map]
    refine (headersFrom_sorted 1 (splitLines text)).imp_of_mem fun {first second} _ late order => ?_
    have boundary := (mem_headers_iff.mp late).boundaryAt
    apply Nat.le_of_not_lt
    intro before
    exact (ends_boundaryAfter (splitLines text) first.line).not_boundary order before boundary

theorem innermost?_eq_none_iff {entries : List OutlineEntry} :
    CompileOutput.innermost? entries = none ↔ entries = [] := by
  cases entries with
  | nil => simp [CompileOutput.innermost?]
  | cons entry rest =>
    rw [CompileOutput.innermost?]
    split
    · simp
    · split <;> simp

theorem innermost?_spec {entries : List OutlineEntry} {entry : OutlineEntry}
    (found : CompileOutput.innermost? entries = some entry) :
    ∃ front back, entries = front ++ entry :: back ∧
      (∀ other ∈ front, other.startLine ≤ entry.startLine) ∧
      ∀ other ∈ back, other.startLine < entry.startLine := by
  induction entries generalizing entry with
  | nil => cases found
  | cons first rest ih =>
    rw [CompileOutput.innermost?] at found
    cases inRest : CompileOutput.innermost? rest with
    | none =>
      rw [inRest] at found
      cases found
      rw [innermost?_eq_none_iff.mp inRest]
      exact ⟨[], [], rfl, by simp, by simp⟩
    | some later =>
      obtain ⟨front, back, rfl, upTo, below⟩ := ih inRest
      rw [inRest] at found
      dsimp only at found
      split at found
      · rename_i before
        cases found
        refine ⟨[], front ++ later :: back, rfl, by simp, fun other member => ?_⟩
        rcases List.mem_append.mp member with inFront | inBack
        · exact Nat.lt_of_le_of_lt (upTo other inFront) before
        rcases List.mem_cons.mp inBack with rfl | inBack
        · exact before
        · exact Nat.lt_trans (below other inBack) before
      · rename_i notBefore
        cases found
        exact ⟨first :: front, back, rfl,
          List.forall_mem_cons.mpr ⟨Nat.le_of_not_lt notBefore, upTo⟩, below⟩

-- Of ranges that have no line in common at most one has the line.
theorem blockAt?_eq_some_iff {output : CompileOutput} (outlined : Outlined lines output.outline)
    {entry : OutlineEntry} :
    output.blockAt? number = some entry ↔
      entry ∈ output.outline ∧ entry.startLine ≤ number ∧ number < entry.endLine := by
  rw [CompileOutput.blockAt?]
  generalize covering : (output.outline.filter fun entry =>
    entry.startLine ≤ number && number < entry.endLine) = entries
  have covers : ∀ other, other ∈ entries ↔
      other ∈ output.outline ∧ other.startLine ≤ number ∧ number < other.endLine := by
    simp [← covering]
  have apart : entries.Pairwise fun first second => first.endLine ≤ second.startLine := by
    rw [← covering]
    exact outlined.apart.filter _
  constructor
  · intro found
    obtain ⟨front, back, rfl, _⟩ := innermost?_spec found
    exact (covers entry).mp (by simp)
  · intro covered
    have member := (covers entry).mpr covered
    cases found : CompileOutput.innermost? entries with
    | none =>
      rw [innermost?_eq_none_iff.mp found] at member
      cases member
    | some last =>
      obtain ⟨front, back, rfl, _⟩ := innermost?_spec found
      have lastCovered := (covers last).mp (by simp)
      obtain ⟨_, behind, before⟩ := List.pairwise_append.mp apart
      rcases List.mem_append.mp member with inFront | inBack
      · have ended := before entry inFront last (by simp)
        omega
      rcases List.mem_cons.mp inBack with rfl | inBack
      · rfl
      · have ended := (List.pairwise_cons.mp behind).1 entry inBack
        omega

def Block.toEntry (block : Block) : OutlineEntry :=
  ⟨block.blockType, block.label, block.startLine, block.endLine⟩

theorem headerAtOrAbove?_empty (number : Nat) : headerAtOrAbove? (splitLines []) number = none := by
  cases number with
  | zero => rfl
  | succ index =>
    change headerAtOrAbove? [[]] (index + 1) = none
    rw [headerAtOrAbove?, List.take_succ_cons, List.take_nil]
    rfl

theorem locate?_of_le (within : number ≤ lineCount text) :
    Block.locate? text number = (headerAtOrAbove? (splitLines text) number).bind fun header =>
      if header.blockType = styleType then none
      else some (Block.ofHeader (splitLines text) header number) := by
  have same : min number (splitLines text).length = number := Nat.min_eq_left within
  rw [Block.locate?]
  split
  · rename_i empty
    rw [empty, headerAtOrAbove?_empty]
    rfl
  · dsimp only
    rw [same]
    cases headerAtOrAbove? (splitLines text) number <;> rfl

theorem locate?_min (text : Text) (number : Nat) :
    Block.locate? text (min number (lineCount text)) = Block.locate? text number := by
  simp [Block.locate?, lineCount]

theorem locate?_eq_some_iff (within : number ≤ lineCount text) {block : Block} :
    Block.locate? text number = some block ↔ ∃ header, IsOver (splitLines text) number header ∧
      header.blockType ≠ styleType ∧ Block.ofHeader (splitLines text) header number = block := by
  simp only [locate?_of_le within, Option.bind_eq_some_iff, headerAtOrAbove?_eq_some_iff,
    Option.ite_none_left_eq_some, Option.some.injEq, ne_eq]

theorem locate?_eq_none_iff (within : number ≤ lineCount text) :
    Block.locate? text number = none ↔
      (∀ header, Heads (splitLines text) header → number < header.line) ∨
        ∃ header, IsOver (splitLines text) number header ∧ header.blockType = styleType := by
  simp only [locate?_of_le within, ← headerAtOrAbove?_eq_none_iff, ← headerAtOrAbove?_eq_some_iff]
  cases headerAtOrAbove? (splitLines text) number <;> simp

def Unclosed (lines : List Text) (start number : Nat) : Prop :=
  ∀ line blockType, start < line → line ≤ number →
    (lineAt? lines line).map Line.classify ≠ some (.close blockType)

-- From the last header on, only a closing tag can be a boundary.
theorem IsOver.plain (isOver : IsOver lines number header)
    (unclosed : Unclosed lines header.line number) {between : Nat} (after : header.line < between)
    (upTo : between ≤ number) : ∀ line ∈ lineAt? lines between, isBoundaryLine line = false := by
  intro line there
  have kind : (lineAt? lines between).map Line.classify = some (Line.classify line) := by
    rw [Option.mem_def.mp there, Option.map_some]
  rw [isBoundaryLine]
  cases read : Line.classify line with
  | header blockType label =>
    rw [read] at kind
    have notLater := isOver.last ⟨between, blockType, label⟩ kind upTo
    dsimp only at notLater
    omega
  | close blockType =>
    rw [read] at kind
    exact absurd kind (unclosed between blockType after upTo)
  | _ => rfl

theorem IsOver.before_boundary (isOver : IsOver lines number header)
    (unclosed : Unclosed lines header.line number) (within : number ≤ lines.length) :
    number < boundaryAfter lines header.line := by
  have ends := ends_boundaryAfter lines header.line
  generalize boundaryAfter lines header.line = stop at ends
  apply Nat.lt_of_not_le
  intro upTo
  have start := ends.after
  obtain ⟨index, rfl⟩ : ∃ index, stop = index + 1 := ⟨stop - 1, by omega⟩
  have there : lineAt? lines (index + 1) = some lines[index] := List.getElem?_eq_getElem (by omega)
  have boundary := ends.boundary _ there
  rw [isOver.plain unclosed start upTo _ there] at boundary
  cases boundary

theorem Heads.toEntry_mem (heads : Heads (splitLines text) header) :
    header.toEntry (splitLines text) ∈ outline text := by
  rw [outline_eq]
  exact List.mem_map_of_mem (mem_headers_iff.mpr heads)

theorem isOver_of_mem_outline {entry : OutlineEntry} (member : entry ∈ outline text)
    (start : entry.startLine ≤ number) (before : number < entry.endLine) :
    ∃ header, IsOver (splitLines text) number header ∧ header.toEntry (splitLines text) = entry := by
  rw [outline_eq] at member
  obtain ⟨header, inHeaders, rfl⟩ := List.mem_map.mp member
  refine ⟨header, ⟨mem_headers_iff.mp inHeaders, start, fun other heads upTo => ?_⟩, rfl⟩
  apply Nat.le_of_not_lt
  intro after
  exact (ends_boundaryAfter (splitLines text) header.line).not_boundary after
    (Nat.lt_of_le_of_lt upTo before) heads.boundaryAt

theorem toEntry_ofHeader (above : header.line ≤ number)
    (before : number < boundaryAfter lines header.line) :
    (Block.ofHeader lines header number).toEntry = header.toEntry lines := by
  have same := ((ends_boundaryAfter lines header.line).later above before).eq_boundaryAfter
  rw [Block.toEntry, Header.toEntry, same]
  rfl

-- The outline shows each header once, and with the block at a line it agrees on every line that it
-- shows and on every line that no closing tag keeps apart from its header. There is no block at a
-- line above all headers and at a line of a style block.
theorem locate?_outline (text : Text) :
    Outlined (splitLines text) (compileStyles text).outline ∧
      ∀ number, number ≤ lineCount text →
        (∀ entry, (compileStyles text).blockAt? number = some entry → entry.blockType ≠ styleType →
          ∃ block, Block.locate? text number = some block ∧ block.toEntry = entry) ∧
        (∀ block, Block.locate? text number = some block →
          Unclosed (splitLines text) block.startLine number →
          (compileStyles text).blockAt? number = some block.toEntry) ∧
        (Block.locate? text number = none ↔
          (∀ header, Heads (splitLines text) header → number < header.line) ∨
            ∃ header, IsOver (splitLines text) number header ∧ header.blockType = styleType) := by
  have outlined : Outlined (splitLines text) (compileStyles text).outline := outlined text
  refine ⟨outlined, fun number within => ⟨?_, ?_, locate?_eq_none_iff within⟩⟩
  · intro entry found noStyle
    obtain ⟨member, start, before⟩ := (blockAt?_eq_some_iff outlined).mp found
    obtain ⟨header, isOver, rfl⟩ := isOver_of_mem_outline member start before
    exact ⟨_, (locate?_eq_some_iff within).mpr ⟨header, isOver, noStyle, rfl⟩,
      toEntry_ofHeader start before⟩
  · intro block located unclosed
    obtain ⟨header, isOver, noStyle, rfl⟩ := (locate?_eq_some_iff within).mp located
    have before := isOver.before_boundary unclosed within
    rw [toEntry_ofHeader isOver.above before]
    exact (blockAt?_eq_some_iff outlined).mpr ⟨isOver.heads.toEntry_mem, isOver.above, before⟩

def closedCard : Text :=
  "--- core/card\nHi\n--- /core/card\n--- style\nx\n--- core/text\nBye".toList

theorem locate?_outline_closedCard :
    5 ≤ lineCount closedCard ∧
      (∃ block, (compileStyles closedCard).blockAt? 2 = some block.toEntry ∧
        Block.locate? closedCard 2 = some block ∧ Unclosed (splitLines closedCard) 1 2 ∧
        block.toEntry = ⟨"core/card".toList, none, 1, 3⟩) ∧
      Block.locate? closedCard 5 = none := by
  obtain ⟨_, agree⟩ := locate?_outline closedCard
  have within : 5 ≤ lineCount closedCard := by decide
  obtain ⟨ofEntry, ofBlock, _⟩ := agree 2 (Nat.le_trans (by decide) within)
  obtain ⟨_, _, ofNone⟩ := agree 5 within
  refine ⟨within, ?_, ?_⟩
  · obtain ⟨block, located, same⟩ :=
      ofEntry ⟨"core/card".toList, none, 1, 3⟩ (by decide) (by decide)
    have start : block.startLine = 1 := congrArg OutlineEntry.startLine same
    have unclosed : Unclosed (splitLines closedCard) 1 2 := by
      intro line blockType after upTo
      obtain rfl : line = 2 := by omega
      have content : (lineAt? (splitLines closedCard) 2).map Line.classify = some .content := by
        decide
      simp [content]
    exact ⟨block, ofBlock block located (start ▸ unclosed), located, unclosed, same⟩
  · have isOver : IsOver (splitLines closedCard) 5 ⟨4, styleType, none⟩ :=
      headerAtOrAbove?_eq_some_iff.mp (by decide)
    exact ofNone.mpr (.inr ⟨_, isOver, rfl⟩)

-- The closing tag still belongs to the card, but the outline has ended the card above it.
example : (compileStyles closedCard).blockAt? 3 = none ∧
    (Block.locate? closedCard 3).map Block.toEntry = some ⟨"core/card".toList, none, 1, 4⟩ := by
  decide

end BlockMarkup
