import BlockMarkup.Proofs.Style.Region
import BlockMarkup.Style.Edit

namespace BlockMarkup.Style

variable {indent : Nat} {source : Text} {graph : Graph} {edit : Edit} {patch : Patch}

def Edit.applyTo (edit : Edit) (graph : Graph) : Graph :=
  graph.setProperty edit.address (trim edit.property) (trim edit.value)

def Edit.Changes (edit : Edit) (graph : Graph) : Prop :=
  graph.isChange edit.address (trim edit.property) (trim edit.value) = true

instance (edit : Edit) (graph : Graph) : Decidable (edit.Changes graph) :=
  inferInstanceAs (Decidable (_ = true))

theorem patch_cases (accepted : Style.patch indent source graph edit = .ok patch) :
    edit.refusal? = none ∧
      (¬edit.Changes graph ∧
          patch = ⟨source, edit.applyTo graph, 0, lineCount source + 1⟩ ∨
        edit.Changes graph ∧
          patch = ⟨(writeBlock indent source (edit.applyTo graph)).text, edit.applyTo graph,
            lineDelta source (writeBlock indent source (edit.applyTo graph)).text,
            (writeBlock indent source (edit.applyTo graph)).shiftFrom⟩) := by
  unfold Style.patch at accepted
  split at accepted
  · cases accepted
  · rename_i allowed
    refine ⟨allowed, ?_⟩
    dsimp only at accepted
    split at accepted
    · rename_i changes
      exact .inr ⟨changes, (Except.ok.inj accepted).symm⟩
    · rename_i changes
      exact .inl ⟨changes, (Except.ok.inj accepted).symm⟩

theorem patch_graph (accepted : Style.patch indent source graph edit = .ok patch) :
    patch.graph = edit.applyTo graph := by
  obtain ⟨_, ⟨_, rfl⟩ | ⟨_, rfl⟩⟩ := patch_cases accepted <;> rfl

theorem patch_delta (accepted : Style.patch indent source graph edit = .ok patch) :
    patch.delta = lineDelta source patch.text := by
  obtain ⟨_, ⟨_, rfl⟩ | ⟨_, rfl⟩⟩ := patch_cases accepted
  · simp [lineDelta]
  · rfl

theorem newline_notMem_bodyLines : ∀ line ∈ graph.bodyLines indent, '\n' ∉ line := by
  intro line member
  rw [Graph.bodyLines] at member
  split at member
  · cases member
  · exact newline_notMem_of_mem_splitLines member

variable {header : Text} {above body blanks below : List Text}

-- The lines of a style block with its header; without a body there is no block.
def blockLines (header : Text) (body : List Text) : List Text :=
  if body = [] then [] else header :: body

theorem newline_notMem_blockLines (plain : '\n' ∉ header) :
    ∀ line ∈ blockLines header (graph.bodyLines indent), '\n' ∉ line := by
  intro line member
  rw [blockLines] at member
  split at member
  · cases member
  · rcases List.mem_cons.mp member with rfl | inBody
    · exact plain
    · exact newline_notMem_bodyLines line inBody

theorem newline_notMem_written {removed added : List Text}
    (before : splitLines source = above ++ (removed ++ below))
    (plain : ∀ line ∈ added, '\n' ∉ line) : ∀ line ∈ above ++ (added ++ below), '\n' ∉ line := by
  have old : ∀ line ∈ above ++ (removed ++ below), '\n' ∉ line := by
    intro line member
    rw [← before] at member
    exact newline_notMem_of_mem_splitLines member
  intro line member
  rcases List.mem_append.mp member with inAbove | rest
  · exact old line (List.mem_append_left _ inAbove)
  rcases List.mem_append.mp rest with inAdded | inBelow
  · exact plain line inAdded
  · exact old line (List.mem_append_right _ (List.mem_append_right _ inBelow))

theorem writeBlock_of_parts
    (parts : Region.Parts (splitLines source) above header body blanks below) :
    writeBlock indent source graph =
      ⟨joinLines (above ++ (blockLines header (graph.bodyLines indent) ++ (blanks ++ below))),
        above.length + 2 + body.length⟩ := by
  have front : (splitLines source).take above.length = above := by simp [parts.whole]
  have withHeader : (splitLines source).take (above.length + 1) = above ++ [header] := by
    simp [parts.whole, List.take_append, List.take_of_length_le]
  have rest : (splitLines source).drop (above.length + 1 + body.length) = blanks ++ below := by
    have cut : splitLines source = (above ++ header :: body) ++ (blanks ++ below) := by
      simp [parts.whole]
    have length : above.length + 1 + body.length = (above ++ header :: body).length := by
      simp only [List.length_append, List.length_cons]
      omega
    rw [cut, length, List.drop_left]
  have bodyEnd : above.length + 2 + body.length - 1 = above.length + 1 + body.length := by omega
  simp only [writeBlock, parts.first?, replaceBody, bodyEnd, rest, blockLines]
  by_cases empty : graph.bodyLines indent = []
  · simp [empty, front]
  · simp [empty, withHeader]

-- Where a document is left at all, its lines are those around the block with the new block in between.
theorem splitLines_writeBlock
    (parts : Region.Parts (splitLines source) above header body blanks below)
    (present : above ++ (blockLines header (graph.bodyLines indent) ++ (blanks ++ below)) ≠ []) :
    splitLines (writeBlock indent source graph).text =
      above ++ (blockLines header (graph.bodyLines indent) ++ (blanks ++ below)) := by
  have before : splitLines source = above ++ ((header :: body) ++ (blanks ++ below)) := by
    rw [parts.whole, List.cons_append]
  have header_plain : '\n' ∉ header :=
    newline_notMem_of_mem_splitLines (t := source) (by rw [parts.whole]; simp)
  have added : ∀ line ∈ blockLines header (graph.bodyLines indent), '\n' ∉ line :=
    newline_notMem_blockLines header_plain
  rw [writeBlock_of_parts parts, splitLines_joinLines present (newline_notMem_written before added)]

theorem splitLines_written_over
    (parts : Region.Parts (splitLines source) above header body blanks below)
    (filled : graph.bodyLines indent ≠ []) :
    splitLines (writeBlock indent source graph).text =
      above ++ header :: (graph.bodyLines indent ++ (blanks ++ below)) := by
  have block : blockLines header (graph.bodyLines indent) = header :: graph.bodyLines indent := by
    rw [blockLines, if_neg filled]
  rw [splitLines_writeBlock parts (by simp [block]), block, List.cons_append]

theorem headersFrom_line_lt {number : Nat} {lines : List Text} {found : Header}
    (member : found ∈ headersFrom number lines) : found.line < number + lines.length := by
  induction lines generalizing number with
  | nil => cases member
  | cons line rest ih =>
    rw [List.length_cons]
    rw [headersFrom] at member
    split at member
    · rcases List.mem_cons.mp member with rfl | later
      · dsimp only
        omega
      · have := ih later
        omega
    · have := ih member
      omega

theorem dropBlankTail_length_le (lines : List Text) :
    (dropBlankTail lines).length ≤ lines.length := by
  obtain ⟨blanks, cut, _, _⟩ := dropBlankTail_split lines
  have length := congrArg List.length cut
  rw [List.length_append] at length
  omega

theorem linesToBoundary_length_le (lines : List Text) :
    (linesToBoundary lines).length ≤ lines.length :=
  (List.takeWhile_prefix _).length_le

theorem insertionPoint_le (lines : List Text) : insertionPoint lines ≤ lines.length := by
  unfold insertionPoint
  split
  · rename_i found last
    have member : found ∈ headers lines := List.mem_of_mem_filter (List.mem_of_getLast? last)
    have bound := headersFrom_line_lt member
    omega
  · dsimp only
    split
    · exact Nat.zero_le _
    · rename_i line rest cut
      split
      · split
        · have whole := congrArg List.length cut
          have filled := dropBlankTail_length_le (linesToBoundary rest)
          have inside := linesToBoundary_length_le rest
          rw [List.length_drop, List.length_cons] at whole
          omega
        · exact Nat.zero_le _
      · exact Nat.zero_le _

theorem separator_cases (following : List Text) :
    separator following = [] ∨ separator following = [[]] := by
  unfold separator
  split
  · exact .inl rfl
  · split
    · exact .inl rfl
    · exact .inr rfl

theorem newline_notMem_newBlock (following : List Text) :
    ∀ line ∈ blockLines styleHeader (graph.bodyLines indent) ++ separator following,
      '\n' ∉ line := by
  intro line member
  rcases List.mem_append.mp member with inBlock | apart
  · exact newline_notMem_blockLines (by decide) line inBlock
  · rcases separator_cases following with together | blank
    · rw [together] at apart
      cases apart
    · rw [blank, List.mem_singleton] at apart
      simp [apart]

theorem writeBlock_of_none (absent : Region.first? source = none) :
    writeBlock indent source graph =
      if graph.bodyLines indent = [] then ⟨source, lineCount source + 1⟩
      else
        ⟨joinLines ((splitLines source).take (insertionPoint (splitLines source)) ++
          (blockLines styleHeader (graph.bodyLines indent) ++
            (separator ((splitLines source).drop (insertionPoint (splitLines source))) ++
              (splitLines source).drop (insertionPoint (splitLines source))))),
          insertionPoint (splitLines source) + 1⟩ := by
  simp only [writeBlock, absent]
  split
  · rfl
  · rename_i present
    simp [insertBlock, blockLines, present]

theorem splitLines_written_new (absent : Region.first? source = none)
    (filled : graph.bodyLines indent ≠ []) :
    splitLines (writeBlock indent source graph).text =
      (splitLines source).take (insertionPoint (splitLines source)) ++ styleHeader ::
        (graph.bodyLines indent ++
          (separator ((splitLines source).drop (insertionPoint (splitLines source))) ++
            (splitLines source).drop (insertionPoint (splitLines source)))) := by
  generalize point : insertionPoint (splitLines source) = n
  have before : splitLines source =
      (splitLines source).take n ++ ([] ++ (splitLines source).drop n) := by simp
  have added : ∀ line ∈ blockLines styleHeader (graph.bodyLines indent) ++
      separator ((splitLines source).drop n), '\n' ∉ line :=
    newline_notMem_newBlock _
  rw [blockLines, if_neg filled] at added
  rw [writeBlock_of_none absent, if_neg filled, blockLines, if_neg filled, point]
  simpa using splitLines_joinLines (by simp) (newline_notMem_written before added)

def cardSource : Text := "--- use: kit\n--- core/card\nHello".toList

def cardEdit (value : Text) : Edit :=
  ⟨"core/card".toList, selfTarget, "color".toList, value, none⟩

end BlockMarkup.Style
