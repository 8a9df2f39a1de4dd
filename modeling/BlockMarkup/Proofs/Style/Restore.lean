import BlockMarkup.Proofs.Style.Accounting
import BlockMarkup.Proofs.Style.Isolation
import BlockMarkup.Proofs.Style.Structure

namespace BlockMarkup.Style

variable {indent : Nat} {source : Text} {edit : Edit} {patch : Patch} {lines : List Text}
variable {header : Text} {above body below : List Text}

theorem bodyLines_empty : Graph.empty.bodyLines indent = [] := rfl

-- What goes besides the block: the lines below it up to the last filled one before a boundary.
def capturedLines (below : List Text) : List Text := dropBlankTail (linesToBoundary below)

theorem capturedLines_eq_nil_iff :
    capturedLines below = [] ↔ ∀ line ∈ linesToBoundary below, isBlankLine line = true := by
  simp [capturedLines, dropBlankTail, List.dropWhile_eq_nil_iff]

theorem removed_of_plain (indent : Nat)
    (split : splitLines source = above ++ header :: (body ++ below))
    (first : ∀ line ∈ above, isStyleHeader line = false) (isHeader : isStyleHeader header = true)
    (closed : ∀ line ∈ body.getLast?, isBlankLine line = false)
    (plain : ∀ line ∈ body, isBoundaryLine line = false) :
    ∃ left, below = capturedLines below ++ left ∧
      (writeBlock indent source .empty).text = joinLines (above ++ left) := by
  obtain ⟨blanks, rest, _, parts⟩ := parts_captured split first isHeader closed plain
  refine ⟨blanks ++ rest, ?_, ?_⟩
  · have whole := parts.whole
    rw [split, List.append_assoc] at whole
    exact List.append_cancel_left (List.cons.inj (List.append_cancel_left whole)).2
  · rw [writeBlock_of_parts parts, bodyLines_empty]
    rfl

theorem removed_of_broken (indent : Nat)
    (split : splitLines source = above ++ header :: (body ++ below))
    (first : ∀ line ∈ above, isStyleHeader line = false) (isHeader : isStyleHeader header = true)
    (broken : ¬∀ line ∈ body, isBoundaryLine line = false) :
    ∃ kept, kept ≠ [] ∧ kept ⊆ body ∧
      (writeBlock indent source .empty).text = joinLines (above ++ (kept ++ below)) := by
  obtain ⟨blanks, boundary, rest, _, parts⟩ := parts_broken split first isHeader broken
  have cut : body ++ below =
      dropBlankTail (linesToBoundary body) ++ (blanks ++ boundary :: rest) ++ below := by
    have whole := parts.whole
    rw [split] at whole
    simpa using (List.cons.inj (List.append_cancel_left whole)).2
  refine ⟨blanks ++ boundary :: rest, by simp, ?_, ?_⟩
  · rw [List.append_cancel_right cut]
    exact List.subset_append_right _ _
  · rw [writeBlock_of_parts parts, bodyLines_empty]
    simp [blockLines]

def Edit.unset (edit : Edit) : Edit := { edit with value := [] }

def Edit.alone (edit : Edit) : Graph :=
  ⟨[], [⟨edit.address, Properties.empty.insert (trim edit.property) (trim edit.value)⟩]⟩

theorem applyTo_empty (valued : trim edit.value ≠ []) : edit.applyTo .empty = edit.alone := by
  simp [Edit.applyTo, Graph.setProperty, Graph.empty, putIn, valued, Edit.alone]

theorem unset_applyTo_alone : edit.unset.applyTo edit.alone = .empty := by
  have left : ((Properties.empty.insert (trim edit.property) (trim edit.value)).erase
      (trim edit.property)).isEmpty = true := by
    simp [Properties.empty, Properties.insert, writeEntry, Properties.erase, Properties.isEmpty]
  change edit.alone.setProperty edit.address (trim edit.property) [] = .empty
  rw [Graph.setProperty, if_pos rfl, Edit.alone, removeFrom, if_pos rfl]
  dsimp only
  rw [if_pos left]
  rfl

theorem changes_empty (valued : trim edit.value ≠ []) : edit.Changes .empty := by
  simp [Edit.Changes, Graph.isChange, Graph.property?, Graph.rule?, Graph.empty, wanted, valued]

theorem unset_changes_alone : edit.unset.Changes edit.alone := by
  have here : edit.alone.property? edit.address (trim edit.property) = some (trim edit.value) := by
    simp [Edit.alone, Graph.property?, Graph.rule?, Properties.get?, Properties.insert,
      Properties.empty, writeEntry]
  change edit.alone.isChange edit.address (trim edit.property) [] = true
  simp [Graph.isChange, here, wanted]

theorem bodyLines_alone_ne_nil (plain : edit.OneLine) (valued : trim edit.value ≠ []) :
    edit.alone.bodyLines indent ≠ [] := by
  have oneLine : edit.alone.OneLine := applyTo_empty valued ▸ plain.applyTo .empty
  have member : (⟨edit.address, Properties.empty.insert (trim edit.property) (trim edit.value)⟩ :
      Rule) ∈ edit.alone.rules := List.mem_singleton_self _
  have filled : (Properties.empty.insert (trim edit.property) (trim edit.value)).entries ≠ [] := by
    simp [Properties.insert, Properties.empty, writeEntry]
  rw [bodyLines_of_oneLine oneLine]
  cases kept : Rule.isRaw ⟨edit.address,
      Properties.empty.insert (trim edit.property) (trim edit.value)⟩ with
  | true => exact List.ne_nil_of_mem (written_of_raw member kept filled).1
  | false => exact List.ne_nil_of_mem (written_of_block member kept filled).1

def unsetPatch (indent : Nat) (patch : Patch) : Patch :=
  ⟨(writeBlock indent patch.text .empty).text, .empty,
    lineDelta patch.text (writeBlock indent patch.text .empty).text,
    (writeBlock indent patch.text .empty).shiftFrom⟩

theorem unset_accepted (valued : trim edit.value ≠ [])
    (accepted : Style.patch indent source .empty edit = .ok patch) :
    patch.text = (writeBlock indent source edit.alone).text ∧ patch.graph = edit.alone ∧
      Style.patch indent patch.text patch.graph edit.unset = .ok (unsetPatch indent patch) := by
  obtain ⟨allowed, ⟨same, _⟩ | ⟨_, rfl⟩⟩ := patch_cases accepted
  · exact absurd (changes_empty valued) same
  rw [applyTo_empty valued]
  refine ⟨rfl, rfl, ?_⟩
  have allowedAgain : edit.unset.refusal? = none := allowed
  have changes : edit.alone.isChange edit.unset.address (trim edit.unset.property)
      (trim edit.unset.value) = true := unset_changes_alone
  have graph : edit.alone.setProperty edit.unset.address (trim edit.unset.property)
      (trim edit.unset.value) = .empty := unset_applyTo_alone
  rw [Style.patch, allowedAgain]
  simp only [changes, graph, if_pos, unsetPatch]

def preceding (source : Text) : List Text :=
  (splitLines source).take (insertionPoint (splitLines source))

def following (source : Text) : List Text :=
  (splitLines source).drop (insertionPoint (splitLines source))

theorem preceding_append_following (source : Text) :
    preceding source ++ following source = splitLines source := List.take_append_drop _ _

theorem separator_eq_nil_iff :
    separator lines = [] ↔ ∀ line ∈ lines.head?, isBlankLine line = true := by
  cases lines with
  | nil => simp [separator]
  | cons line rest => by_cases blank : isBlankLine line = true <;> simp [separator, blank]

theorem newline_notMem_apart {line : Text}
    (member : line ∈ separator (following source) ++ following source) : '\n' ∉ line := by
  rcases List.mem_append.mp member with between | after
  · rcases separator_cases (following source) with together | blank
    · rw [together] at between
      cases between
    · rw [blank, List.mem_singleton] at between
      simp [between]
  · exact newline_notMem_of_mem_splitLines (t := source) (List.mem_of_mem_drop after)

theorem newline_notMem_preceding {line : Text} (member : line ∈ preceding source) : '\n' ∉ line :=
  newline_notMem_of_mem_splitLines (t := source) (List.mem_of_mem_take member)

theorem joinLines_preceding_eq_iff {left : List Text} (single : ∀ line ∈ left, '\n' ∉ line)
    (present : source = [] → left ≠ []) :
    joinLines (preceding source ++ left) = source ↔ left = following source := by
  constructor
  · intro same
    have filled : preceding source ++ left ≠ [] := by
      intro empty
      rw [empty] at same
      exact present same.symm (List.append_eq_nil_iff.mp empty).2
    have split : splitLines source = preceding source ++ left := by
      rw [← splitLines_joinLines filled fun line member => ?_, same]
      exact (List.mem_append.mp member).elim newline_notMem_preceding (single line)
    rw [← preceding_append_following] at split
    exact (List.append_cancel_left split).symm
  · rintro rfl
    rw [preceding_append_following, joinLines_splitLines]

theorem eq_following_iff {left : List Text}
    (cut : separator (following source) ++ following source =
      capturedLines (separator (following source) ++ following source) ++ left) :
    left = following source ↔
      capturedLines (separator (following source) ++ following source) = [] ∧
        separator (following source) = [] := by
  constructor
  · rintro rfl
    have same := List.append_cancel_right cut
    obtain ⟨_, _, _, filled⟩ := dropBlankTail_split
      (linesToBoundary (separator (following source) ++ following source))
    rcases separator_cases (following source) with together | blank
    · exact ⟨same ▸ together, together⟩
    · change ∀ line ∈ (capturedLines _).getLast?, _ at filled
      rw [← same, blank] at filled
      cases filled [] rfl
  · rintro ⟨nothing, together⟩
    rw [nothing, together] at cut
    exact cut.symm

def withBody (source : Text) (body : List Text) : List Text :=
  preceding source ++ styleHeader :: (body ++ (separator (following source) ++ following source))

variable {written : Text}

theorem header_notMem_preceding (absent : ∀ line ∈ splitLines source, isStyleHeader line = false) :
    ∀ line ∈ preceding source, isStyleHeader line = false :=
  fun line member => absent line (List.mem_of_mem_take member)

-- A body without boundaries goes, and what was between it and the next boundary goes with it.
theorem restored_iff_of_plain (indent : Nat)
    (absent : ∀ line ∈ splitLines source, isStyleHeader line = false)
    (split : splitLines written = withBody source body)
    (closed : ∀ line ∈ body.getLast?, isBlankLine line = false)
    (plain : ∀ line ∈ body, isBoundaryLine line = false) :
    ((writeBlock indent written .empty).text = source ↔
      capturedLines (separator (following source) ++ following source) = [] ∧
        separator (following source) = []) ∧
    (capturedLines (separator (following source) ++ following source) = [] →
      (writeBlock indent written .empty).text =
        joinLines (preceding source ++ (separator (following source) ++ following source))) := by
  obtain ⟨left, cut, back⟩ :=
    removed_of_plain indent split (header_notMem_preceding absent) (by decide) closed plain
  have single : ∀ line ∈ left, '\n' ∉ line := fun line member =>
    newline_notMem_apart (cut ▸ List.mem_append_right _ member)
  have present : source = [] → left ≠ [] := by
    rintro rfl rfl
    exact absurd cut (by decide)
  rw [back]
  constructor
  · rw [joinLines_preceding_eq_iff single present, eq_following_iff cut]
  · intro nothing
    rw [nothing, List.nil_append] at cut
    rw [cut]

theorem not_restored_of_broken (indent : Nat)
    (absent : ∀ line ∈ splitLines source, isStyleHeader line = false)
    (split : splitLines written = withBody source body) (oneLine : ∀ line ∈ body, '\n' ∉ line)
    (broken : ¬∀ line ∈ body, isBoundaryLine line = false) :
    (writeBlock indent written .empty).text ≠ source := by
  obtain ⟨kept, some, within, back⟩ :=
    removed_of_broken indent split (header_notMem_preceding absent) (by decide) broken
  have single : ∀ line ∈ kept ++ (separator (following source) ++ following source),
      '\n' ∉ line := by
    intro line member
    rcases List.mem_append.mp member with old | apart
    · exact oneLine line (within old)
    · exact newline_notMem_apart apart
  rw [back, Ne, joinLines_preceding_eq_iff single fun _ => by simp [some]]
  intro same
  have length := congrArg List.length same
  have longer := List.length_pos_iff.mpr some
  simp only [List.length_append] at length
  omega

-- What a property that is set and taken away again leaves of the text.
theorem set_then_unset_iff (absent : ∀ line ∈ splitLines source, isStyleHeader line = false)
    (plain : edit.OneLine) (valued : trim edit.value ≠ [])
    (accepted : Style.patch indent source .empty edit = .ok patch) :
    ∃ back, Style.patch indent patch.text patch.graph edit.unset = .ok back ∧
      back.graph = .empty ∧ patch.delta + back.delta = lineDelta source back.text ∧
      (back.text = source ↔
        (∀ line ∈ patch.graph.bodyLines indent, isBoundaryLine line = false) ∧
        (∀ line ∈ linesToBoundary (following source), isBlankLine line = true) ∧
        ∀ line ∈ (following source).head?, isBlankLine line = true) ∧
      ((∀ line ∈ patch.graph.bodyLines indent, isBoundaryLine line = false) →
        (∀ line ∈ linesToBoundary (following source), isBlankLine line = true) →
        back.text =
          joinLines (preceding source ++ (separator (following source) ++ following source))) := by
  have delta := patch_delta accepted
  obtain ⟨text, graph, again⟩ := unset_accepted valued accepted
  refine ⟨unsetPatch indent patch, again, rfl, ?_, ?_⟩
  · rw [delta]
    exact lineDelta_trans _ _ _
  have split : splitLines patch.text = withBody source (edit.alone.bodyLines indent) := by
    rw [text]
    exact splitLines_written_new (Region.first?_eq_none absent)
      (bodyLines_alone_ne_nil plain valued)
  have closed : ∀ line ∈ (edit.alone.bodyLines indent).getLast?, isBlankLine line = false :=
    bodyLines_closed (applyTo_empty valued ▸ plain.applyTo .empty)
  have gap : (∀ line ∈ linesToBoundary (following source), isBlankLine line = true) ↔
      capturedLines (separator (following source) ++ following source) = [] := by
    rw [capturedLines_eq_nil_iff, separator_gap]
  change ((writeBlock indent patch.text .empty).text = source ↔ _) ∧ (_ → _ →
    (writeBlock indent patch.text .empty).text = _)
  rw [graph, gap, ← separator_eq_nil_iff]
  by_cases inside : ∀ line ∈ edit.alone.bodyLines indent, isBoundaryLine line = false
  · obtain ⟨restored, joined⟩ := restored_iff_of_plain indent absent split closed inside
    exact ⟨restored.trans (and_iff_right inside).symm, fun _ => joined⟩
  · have changed := not_restored_of_broken indent absent split newline_notMem_bodyLines inside
    exact ⟨iff_of_false changed fun both => inside both.1, fun plain => absurd plain inside⟩

def spacedSource : Text := "--- use: kit\n\n--- core/card\nHello".toList

def spacedColored : Patch :=
  { text := "--- use: kit\n--- style\ncore/card\n  color: red\n\n--- core/card\nHello".toList
    graph := (cardEdit "red".toList).applyTo .empty
    delta := 3
    shiftFrom := 2 }

theorem set_then_unset_spaced :
    (cardEdit "red".toList).OneLine ∧
      Style.patch defaultIndent spacedSource .empty (cardEdit "red".toList) = .ok spacedColored ∧
      ∃ back, Style.patch defaultIndent spacedColored.text spacedColored.graph
          (cardEdit "red".toList).unset = .ok back ∧
        back.text = spacedSource ∧ back.graph = .empty ∧ spacedColored.delta + back.delta = 0 := by
  have plain : (cardEdit "red".toList).OneLine := by decide
  have accepted : Style.patch defaultIndent spacedSource .empty (cardEdit "red".toList) =
      .ok spacedColored := by
    decide +kernel
  obtain ⟨back, again, graph, deltas, restored, _⟩ :=
    set_then_unset_iff (by decide +kernel) plain (by decide) accepted
  have same : back.text = spacedSource := restored.mpr (by decide +kernel)
  refine ⟨plain, accepted, back, again, same, graph, ?_⟩
  rw [deltas, same]
  decide +kernel

theorem set_then_unset_changes_text :
    (cardEdit "red".toList).OneLine ∧ trim (cardEdit "red".toList).value ≠ [] ∧
      ((∀ line ∈ splitLines "Hello".toList, isStyleHeader line = false) ∧
        ∃ first back, Style.patch defaultIndent "Hello".toList .empty (cardEdit "red".toList) =
            .ok first ∧
          Style.patch defaultIndent first.text first.graph (cardEdit "red".toList).unset =
            .ok back ∧
          back.text = []) ∧
      (∀ line ∈ splitLines "--- core/card\nHi".toList, isStyleHeader line = false) ∧
        ∃ first back, Style.patch defaultIndent "--- core/card\nHi".toList .empty
            (cardEdit "red".toList) = .ok first ∧
          Style.patch defaultIndent first.text first.graph (cardEdit "red".toList).unset =
            .ok back ∧
          back.text = "\n--- core/card\nHi".toList ∧ first.delta + back.delta = 1 := by
  have loose : ∀ line ∈ splitLines "Hello".toList, isStyleHeader line = false := by
    decide +kernel
  have block : ∀ line ∈ splitLines "--- core/card\nHi".toList, isStyleHeader line = false := by
    decide +kernel
  let first : Patch :=
    ⟨"--- style\ncore/card\n  color: red\n\n--- core/card\nHi".toList,
      (cardEdit "red".toList).applyTo .empty, 4, 1⟩
  refine ⟨by decide, by decide, ⟨loose, helloCaptured, helloLost, ?_, ?_, rfl⟩,
    block, first, ⟨"\n--- core/card\nHi".toList, .empty, -3, 4⟩, ?_, ?_, rfl, rfl⟩
  all_goals decide +kernel

end BlockMarkup.Style
