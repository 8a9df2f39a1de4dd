import BlockMarkup.Proofs.Block.Repeated
import BlockMarkup.Proofs.Session.Cursor

namespace BlockMarkup

section change

variable {before after : List Text} {number : Nat}

theorem lineAt?_of_lt_firstChange (early : number < firstChange before after) :
    lineAt? before number = lineAt? after number := by
  induction before generalizing after number with
  | nil =>
    obtain rfl : number = 0 := Nat.lt_one_iff.mp early
    rfl
  | cons line rest ih =>
    cases after with
    | nil =>
      obtain rfl : number = 0 := Nat.lt_one_iff.mp early
      rfl
    | cons other more =>
      rw [firstChange] at early
      split at early
      · rename_i same
        subst same
        rcases number with _ | _ | index
        · rfl
        · rfl
        · exact ih (Nat.lt_of_succ_lt_succ early)
      · obtain rfl : number = 0 := Nat.lt_one_iff.mp early
        rfl

theorem length_lt_firstChange (front before after : List Text) :
    front.length < firstChange (front ++ before) (front ++ after) := by
  induction front with
  | nil =>
    unfold firstChange
    split
    · split
      · exact Nat.succ_pos _
      · exact Nat.one_pos
    · exact Nat.one_pos
  | cons line rest ih =>
    rw [List.cons_append, List.cons_append, firstChange, if_pos rfl, List.length_cons]
    exact Nat.succ_lt_succ ih

end change

namespace Block

variable {lines above inside below : List Text} {named : Header} {line : Text}

theorem Parts.lineAt?_below (parts : Parts lines named above line inside below) (index : Nat) :
    lineAt? lines (named.line + 1 + inside.length + index) = below[index]? := by
  have place : named.line + 1 + inside.length + index = named.line + (inside.length + index) + 1 := by
    omega
  rw [place, lineAt?, ← List.getElem?_drop, parts.drop_header,
    List.getElem?_append_right (Nat.le_add_right _ _), Nat.add_sub_cancel_left]

theorem Parts.isHeader (parts : Parts lines named above line inside below) : Heads lines named := by
  have there : lineAt? lines named.line = some line := by simp [lineAt?, parts.place, parts.whole]
  rw [Heads, there, Option.map_some, parts.heads]

end Block

namespace Session

variable {compile : Compiler} {session next : Session compile} {changed key value : Text}

section cursor

variable {front removed added back : List Text}

-- A cursor above the first change stays, and any other one is below the lines that did not change
-- and moves along.
theorem movedCursor_cases (before : splitLines session.source = front ++ (removed ++ back))
    (after : splitLines changed = front ++ (added ++ back)) (headed : 0 < front.length)
    (longer : removed.length ≤ added.length + 1) :
    session.cursor < firstChange (splitLines session.source) (splitLines changed) ∧
        session.movedCursor changed = session.cursor ∨
      front.length < session.cursor ∧
        session.movedCursor changed + removed.length = session.cursor + added.length := by
  have common : front.length < firstChange (splitLines session.source) (splitLines changed) := by
    rw [before, after]
    exact length_lt_firstChange _ _ _
  have delta : lineDelta session.source changed = (added.length : Int) - removed.length := by
    rw [lineDelta, lineCount, lineCount, before, after]
    simp only [List.length_append]
    omega
  rw [movedCursor, delta]
  split
  · exact .inr (by omega)
  · exact .inl (by omega)

theorem lineAt?_movedCursor (before : splitLines session.source = front ++ (removed ++ back))
    (after : splitLines changed = front ++ (added ++ back)) (headed : 0 < front.length)
    (longer : removed.length ≤ added.length + 1)
    (outside : session.cursor ≤ front.length ∨ front.length + removed.length < session.cursor) :
    lineAt? (splitLines changed) (session.movedCursor changed) =
      lineAt? (splitLines session.source) session.cursor := by
  rcases movedCursor_cases before after headed longer with ⟨early, stays⟩ | ⟨past, moved⟩
  · rw [stays, lineAt?_of_lt_firstChange early]
  · have below : front.length + removed.length < session.cursor := by omega
    obtain ⟨index, place⟩ := Nat.exists_eq_add_of_lt below
    have target : session.movedCursor changed = front.length + added.length + index + 1 := by omega
    have rest : ∀ middle : List Text, lineAt? (front ++ (middle ++ back))
        (front.length + middle.length + index + 1) = back[index]? := by
      intro middle
      rw [lineAt?, ← List.append_assoc, ← List.length_append, List.getElem?_append_right (by omega),
        Nat.add_sub_cancel_left]
    rw [target, place, before, after, rest, rest]

theorem isOver_movedCursor {named : Header} {above inside written below : List Text} {line : Text}
    (parts : Block.Parts (splitLines session.source) named above line inside below)
    (patched : Block.Parts (splitLines changed) named above line written below)
    (longer : inside.length ≤ written.length + 1)
    (isOver : IsOver (splitLines session.source) session.cursor named) :
    IsOver (splitLines changed) (session.movedCursor changed) named := by
  have place := parts.place
  have upTo := isOver.above
  have before : splitLines session.source = (above ++ [line]) ++ (inside ++ below) := by
    simp [parts.whole]
  have after : splitLines changed = (above ++ [line]) ++ (written ++ below) := by
    simp [patched.whole]
  have cases := movedCursor_cases before after (by simp) longer
  rw [List.length_append, List.length_singleton] at cases
  refine ⟨patched.isHeader, by omega, fun other heads within => ?_⟩
  rcases cases with ⟨early, stays⟩ | ⟨past, moved⟩
  · have earlier : other.line < firstChange (splitLines session.source) (splitLines changed) := by
      omega
    refine isOver.last other ?_ (by omega)
    rw [Heads, lineAt?_of_lt_firstChange earlier]
    exact heads
  · apply Nat.le_of_not_lt
    intro later
    have ends := ends_boundaryAfter (splitLines changed) named.line
    rw [patched.boundaryAfter] at ends
    -- No header is among the lines inside, so this one stood below them before.
    have notInside : named.line + 1 + written.length ≤ other.line := by
      apply Nat.le_of_not_lt
      intro inBlock
      exact ends.not_boundary later inBlock heads.boundaryAt
    obtain ⟨index, there⟩ := Nat.exists_eq_add_of_le notInside
    have old : Heads (splitLines session.source)
        ⟨named.line + 1 + inside.length + index, other.blockType, other.label⟩ := by
      rw [Heads, parts.lineAt?_below, ← patched.lineAt?_below, ← there]
      exact heads
    have notLater := isOver.last _ old (by dsimp only; omega)
    dsimp only at notLater
    omega

end cursor

theorem setProperty_of_same {block : Block} (found : session.cursorBlock? = some block)
    (same : Block.patchProperty session.source block.startLine block.endLine key value =
      session.source) : session.setProperty key value = (session, .ok false) := by
  simp [setProperty, requireBlock, found, same]

theorem setProperty_eq_ok {answer : Bool}
    (set : session.setProperty key value = (next, .ok answer)) :
    ∃ block, session.cursorBlock? = some block ∧
      (next = session ∧
          Block.patchProperty session.source block.startLine block.endLine key value =
            session.source ∨
        next.source =
            Block.patchProperty session.source block.startLine block.endLine key value ∧
          next.cursor = session.movedCursor next.source) := by
  unfold setProperty requireBlock at set
  cases found : session.cursorBlock? with
  | none =>
    rw [found] at set
    cases set
  | some block =>
    simp only [found] at set
    refine ⟨block, rfl, ?_⟩
    split at set
    · rename_i same
      cases set
      exact .inl ⟨rfl, same⟩
    · cases set
      exact .inr ⟨rfl, rfl⟩

theorem lineOf?_ofHeader {text line : Text} {header : Header} {above inside below : List Text}
    {number : Nat} (parts : Block.Parts (splitLines text) header above line inside below)
    (upTo : header.line ≤ number) (key : Text) :
    (Block.ofHeader (splitLines text) header number).lineOf? text key =
      ((clusterFrom (header.line + 1) inside).find? fun found => found.key = key).map
        PropertyLine.line := by
  rw [Block.lineOf?, Block.ofHeader, propertyCluster_boundaryAfter upTo, parts.drop_header,
    clusterFrom_append_boundary parts.stop]

-- Setting a property leaves the block at the cursor where it is, and the cursor on its line unless
-- that is the one that was written over or taken out. A property that has a value is not set twice.
theorem setProperty_follows (inRange : session.InRange) (isKey : IsKey key) {answer : Bool}
    (set : session.setProperty key value = (next, .ok answer)) :
    ∃ before after, session.cursorBlock? = some before ∧ next.cursorBlock? = some after ∧
      after.startLine = before.startLine ∧ after.blockType = before.blockType ∧
      after.label = before.label ∧
      (before.lineOf? session.source key ≠ some session.cursor →
        ∃ line, lineAt? (splitLines session.source) session.cursor = some line ∧
          lineAt? (splitLines next.source) next.cursor = some line) ∧
      (foldValue value ≠ [] → next.setProperty key value = (next, .ok false)) := by
  have within := inRange.2
  obtain ⟨line, here⟩ := exists_lineAt?_iff.mpr ⟨inRange.1, within⟩
  obtain ⟨block, found, ⟨rfl, same⟩ | ⟨source, cursor⟩⟩ := setProperty_eq_ok set
  · exact ⟨block, block, found, found, rfl, rfl, rfl, fun _ => ⟨line, here, here⟩,
      fun _ => setProperty_of_same found same⟩
  obtain ⟨header, isOver, noStyle, rfl⟩ := (locate?_eq_some_iff within).mp found
  obtain ⟨above, opening, inside, below, parts⟩ :=
    Block.exists_parts_of_header isOver.heads noStyle
  obtain ⟨written, rewritten, patched⟩ := parts.patched isKey value
  rw [Block.ofHeader, Block.patchProperty_of_le parts (boundaryAfter_le isOver.above)] at source
  rw [← source] at patched
  obtain ⟨front, removed, added, back, rfl, rfl, longer, written⟩ := rewritten.cut header.line
  have inRange' := movedCursor_inRange inRange next.source
  have isOver' := isOver_movedCursor parts patched (by simp; omega) isOver
  rw [← cursor] at inRange' isOver'
  have located := (locate?_eq_some_iff inRange'.2).mpr ⟨header, isOver', noStyle, rfl⟩
  refine ⟨_, _, found, located, rfl, rfl, rfl, fun other => ⟨line, here, ?_⟩, fun present => ?_⟩
  · have place : header.line = above.length + 1 := parts.place
    rw [lineOf?_ofHeader parts isOver.above] at other
    have before : splitLines session.source =
        (above ++ opening :: front) ++ (removed ++ (back ++ below)) := by simp [parts.whole]
    have after : splitLines next.source =
        (above ++ opening :: front) ++ (added ++ (back ++ below)) := by simp [patched.whole]
    have length : (above ++ opening :: front).length = header.line + front.length := by
      rw [List.length_append, List.length_cons, place]
      omega
    rw [cursor, lineAt?_movedCursor before after (by omega) longer ?_, here]
    rw [length]
    rcases written with rfl | ⟨one, first⟩
    · rw [List.length_nil]
      omega
    · rw [first] at other
      have apart : session.cursor ≠ header.line + 1 + front.length := fun same => other (by rw [same])
      omega
  · exact setProperty_of_same located
      (Block.patchProperty_again patched rewritten isKey present (boundaryAfter_le isOver'.above))

def sizedTwice : Session compileStyles :=
  (start compileStyles "--- core/card\nsize: 1\nsize: 1\nHi".toList Style.defaultIndent
    .default).setCursor 3

theorem setProperty_follows_sizedTwice :
    sizedTwice.InRange ∧ IsKey "size".toList ∧
      (∃ next, sizedTwice.setProperty "size".toList "2".toList = (next, .ok true) ∧
        lineAt? (splitLines next.source) next.cursor = some "size: 1".toList ∧
        next.setProperty "size".toList "2".toList = (next, .ok false)) ∧
      ∃ next, sizedTwice.setProperty "size".toList [] = (next, .ok true) ∧
        next.cursor = 2 ∧ lineAt? (splitLines next.source) next.cursor = some "size: 1".toList := by
  have inRange : sizedTwice.InRange := by decide +kernel
  have isKey : IsKey "size".toList := ⟨'s', "ize".toList, .inl rfl, by decide, List.all_eq_true.mp rfl⟩
  have other : ∀ block ∈ sizedTwice.cursorBlock?,
      block.lineOf? sizedTwice.source "size".toList ≠ some sizedTwice.cursor := by decide +kernel
  have line : lineAt? (splitLines sizedTwice.source) sizedTwice.cursor = some "size: 1".toList := by
    decide +kernel
  have replaced : sizedTwice.setProperty "size".toList "2".toList =
      ((sizedTwice.setProperty "size".toList "2".toList).1, .ok true) :=
    Prod.ext rfl (by decide +kernel)
  have removed : sizedTwice.setProperty "size".toList [] =
      ((sizedTwice.setProperty "size".toList []).1, .ok true) := Prod.ext rfl (by decide +kernel)
  have cursor : (sizedTwice.setProperty "size".toList []).1.cursor = 2 := by decide +kernel
  refine ⟨inRange, isKey, ⟨_, replaced, ?_⟩, ⟨_, removed, cursor, ?_⟩⟩
  · obtain ⟨_, _, found, _, _, _, _, kept, again⟩ := setProperty_follows inRange isKey replaced
    obtain ⟨_, here, there⟩ := kept (other _ found)
    exact ⟨there.trans (here.symm.trans line), again (by decide)⟩
  · obtain ⟨_, _, found, _, _, _, _, kept, _⟩ := setProperty_follows inRange isKey removed
    obtain ⟨_, here, there⟩ := kept (other _ found)
    exact there.trans (here.symm.trans line)

end Session
end BlockMarkup
