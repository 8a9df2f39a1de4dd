import BlockMarkup.Proofs.Block.ReadBack
import BlockMarkup.Proofs.Style.Accounting
import BlockMarkup.Proofs.Style.Overwrite

namespace BlockMarkup

namespace Block

variable {text key value line : Text} {above inside below front back blanks : List Text}

def setInside (key value : Text) (inside : List Text) : List Text :=
  writeProperty inside 0 (inside.length + 1) key value

theorem propertyCluster_inside (inside : List Text) :
    propertyCluster inside 0 (inside.length + 1) = clusterFrom 1 inside := by
  simp [propertyCluster]

theorem lastLine_le (inside : List Text) :
    ((clusterFrom 1 inside).getLast?.map PropertyLine.line).getD 0 ≤ inside.length := by
  cases last : (clusterFrom 1 inside).getLast? with
  | none => exact Nat.zero_le _
  | some found =>
    have bounds := mem_clusterFrom_bounds (List.mem_of_getLast? last)
    change found.line ≤ inside.length
    omega

theorem insertedLines_moved {after : Nat} (within : after ≤ inside.length) (key value : Text) :
    insertedLines (front ++ (inside ++ back)) (after + front.length)
        (front.length + 1 + inside.length) key value =
      insertedLines inside after (inside.length + 1) key value := by
  have room : after + front.length + 1 < front.length + 1 + inside.length ↔
      after + 1 < inside.length + 1 := by omega
  have next : (front ++ (inside ++ back))[after + front.length]? = (inside ++ back)[after]? := by
    rw [List.getElem?_append_right (by omega), Nat.add_sub_cancel]
  rw [insertedLines, insertedLines, next]
  by_cases inRange : after < inside.length
  · simp [List.getElem?_append_left inRange, room]
  · simp [room, inRange]

-- A property is written by looking at the lines inside its block alone.
theorem writeProperty_inside (front inside back : List Text) (key value : Text) :
    writeProperty (front ++ (inside ++ back)) front.length (front.length + 1 + inside.length) key
        value = front ++ (setInside key value inside ++ back) := by
  have cluster : propertyCluster (front ++ (inside ++ back)) front.length
      (front.length + 1 + inside.length) =
        (clusterFrom 1 inside).map (PropertyLine.moved front.length) := by
    have length : front.length + 1 + inside.length - 1 = (front ++ inside).length := by
      rw [List.length_append]
      omega
    rw [propertyCluster, ← List.append_assoc, length, List.take_left, List.drop_left,
      Nat.add_comm front.length 1, clusterFrom_moved]
  have keys : ((fun found : PropertyLine => decide (found.key = key)) ∘
      PropertyLine.moved front.length) = fun found => decide (found.key = key) := rfl
  rw [setInside, writeProperty, writeProperty, propertyCluster_inside, cluster, List.find?_map, keys]
  cases first : (clusterFrom 1 inside).find? fun found => found.key = key with
  | some found =>
    obtain ⟨positive, bound⟩ := mem_clusterFrom_bounds (List.mem_of_find?_eq_some first)
    have index : found.line + front.length - 1 = front.length + (found.line - 1) := by omega
    have inRange : found.line - 1 < inside.length := by omega
    simp only [Option.map_some, PropertyLine.moved, replaceLine, index]
    split
    · rw [List.eraseIdx_append_of_length_le (by omega), Nat.add_sub_cancel_left,
        List.eraseIdx_append_of_lt_length inRange]
    · rw [List.set_append_right _ _ (by omega), Nat.add_sub_cancel_left,
        List.set_append_left _ _ inRange]
  | none =>
    have last : (((clusterFrom 1 inside).map (PropertyLine.moved front.length)).getLast?.map
        PropertyLine.line).getD front.length =
          ((clusterFrom 1 inside).getLast?.map PropertyLine.line).getD 0 + front.length := by
      rw [List.getLast?_map]
      cases (clusterFrom 1 inside).getLast? with
      | none => exact (Nat.zero_add _).symm
      | some found => rfl
    have within := lastLine_le inside
    simp only [Option.map_none, last]
    split
    · rfl
    · rw [insertedLines_moved within, List.take_append, List.drop_append]
      simp [List.take_append_of_le_length within, List.drop_append_of_le_length within,
        List.take_of_length_le]

theorem insertedLines_append_blanks (blank : ∀ line ∈ blanks, isBlankLine line = true) {after : Nat}
    (within : after ≤ inside.length) (key value : Text) :
    insertedLines (inside ++ blanks) after ((inside ++ blanks).length + 1) key value =
      insertedLines inside after (inside.length + 1) key value := by
  rw [insertedLines, insertedLines]
  rcases Nat.lt_or_eq_of_le within with inRange | rfl
  · have room : after < inside.length + blanks.length := by omega
    simp [inRange, room]
  · have noContent : (blanks.head?.map Line.classify) ≠ some .content := by
      cases blanks with
      | nil => simp
      | cons line rest =>
        have kind : Line.classify line = .blank := by simpa [isBlankLine] using blank line (by simp)
        simp [kind]
    have next : (inside ++ blanks)[inside.length]? = blanks.head? := by
      rw [List.getElem?_append_right (Nat.le_refl _), Nat.sub_self, List.head?_eq_getElem?]
    rw [next]
    simp [noContent]

theorem setInside_append_blanks (blank : ∀ line ∈ blanks, isBlankLine line = true)
    (key value : Text) (inside : List Text) :
    setInside key value (inside ++ blanks) = setInside key value inside ++ blanks := by
  rw [setInside, setInside, writeProperty, writeProperty, propertyCluster_inside,
    propertyCluster_inside, clusterFrom_append_blanks blank]
  cases first : (clusterFrom 1 inside).find? fun found => found.key = key with
  | some found =>
    obtain ⟨positive, bound⟩ := mem_clusterFrom_bounds (List.mem_of_find?_eq_some first)
    have inRange : found.line - 1 < inside.length := by omega
    dsimp only
    split
    · rw [List.eraseIdx_append_of_lt_length inRange]
    · rw [replaceLine, replaceLine, List.set_append_left _ _ inRange]
  | none =>
    have within := lastLine_le inside
    dsimp only
    split
    · rfl
    · rw [insertedLines_append_blanks blank within, List.take_append_of_le_length within,
        List.drop_append_of_le_length within, List.append_assoc, List.append_assoc,
        List.append_assoc]

theorem Parts.patched_inside {named : Header}
    (parts : Parts (splitLines text) named above line inside below) (isKey : IsKey key)
    (value : Text) :
    Parts (splitLines (patchProperty text named.line (shown named inside).endLine key value)) named
      above line (setInside key (foldValue value) inside) below := by
  obtain ⟨after, _, patched⟩ := parts.patched isKey value
  have written := splitLines_patchProperty_eq parts (shown named inside).endLine value
    (newline_notMem_key isKey)
  have front : named.line = (above ++ [line]).length := by simp [parts.place]
  have whole : splitLines text = (above ++ [line]) ++ (inside ++ below) := by simp [parts.whole]
  have blockEnd : (shown named inside).endLine = named.line + 1 + inside.length := rfl
  rw [blockEnd, Nat.min_self, whole, front, writeProperty_inside, ← front, ← blockEnd, patched.whole,
    List.append_assoc, List.singleton_append, List.append_cancel_left_eq, List.cons.injEq] at written
  have same : after = setInside key (foldValue value) inside :=
    List.append_cancel_right written.2
  rwa [same] at patched

end Block

section cuts

variable {α : Type} {front back above below inside : List α} {first second : α}

theorem cut_past (whole : inside ++ back = above ++ first :: below) (outside : first ∉ inside) :
    ∃ between, above = inside ++ between ∧ back = between ++ first :: below := by
  rcases List.append_eq_append_iff.mp whole with ⟨between, rfl, rest⟩ | ⟨between, cut, rest⟩
  · exact ⟨between, rfl, rest⟩
  · cases between with
    | nil => exact ⟨[], by simpa using cut.symm, rest.symm⟩
    | cons next between =>
      refine absurd ?_ outside
      rw [cut, (List.cons.inj rest).1]
      simp

theorem cut_order (whole : above ++ first :: below = front ++ second :: back)
    (apart : first ≠ second) :
    (∃ between, above = front ++ second :: between ∧ back = between ++ first :: below) ∨
      ∃ between, front = above ++ first :: between ∧ below = between ++ second :: back := by
  rcases List.append_eq_append_iff.mp whole with ⟨later, late, rest⟩ | ⟨later, early, rest⟩
  · cases later with
    | nil => exact absurd (List.cons.inj rest).1 apart
    | cons next later =>
      obtain ⟨rfl, under⟩ := List.cons.inj rest
      exact .inr ⟨later, late, under⟩
  · cases later with
    | nil => exact absurd (List.cons.inj rest).1.symm apart
    | cons next later =>
      obtain ⟨rfl, under⟩ := List.cons.inj rest
      exact .inl ⟨later, early, under⟩

end cuts

namespace Block

variable {indent : Nat} {source text key value line header : Text} {graph : Style.Graph}
variable {front inside back above body blanks below : List Text} {named : Header}

theorem Parts.beside (parts : Parts (splitLines source) named front line inside back)
    (region : Style.Region.Parts (splitLines source) above header body blanks below) :
    (∃ between, above = front ++ line :: (inside ++ between) ∧
        back = between ++ header :: (body ++ (blanks ++ below))) ∨
      ∃ between, below = between ++ line :: (inside ++ back) ∧
        front = above ++ header :: (body ++ (blanks ++ between)) := by
  have apart : header ≠ line := by
    rintro rfl
    have other := parts.isStyleHeader_eq_false
    rw [region.isHeader] at other
    cases other
  have notInside : header ∉ inside := by
    intro member
    have boundary := Style.isBoundaryLine_of_isStyleHeader region.isHeader
    rw [parts.plain header member] at boundary
    cases boundary
  have notInBody : line ∉ body ++ blanks := by
    intro member
    have boundary := isBoundaryLine_of_header parts.heads
    rw [region.plain line member] at boundary
    cases boundary
  rcases cut_order (region.whole.symm.trans parts.whole) apart with
    ⟨rest, above_eq, inside_eq⟩ | ⟨rest, front_eq, body_eq⟩
  · obtain ⟨between, rfl, back_eq⟩ := cut_past inside_eq notInside
    exact .inl ⟨between, above_eq, back_eq⟩
  · rw [← List.append_assoc] at body_eq
    obtain ⟨between, rfl, below_eq⟩ := cut_past body_eq notInBody
    exact .inr ⟨between, below_eq, by rw [front_eq, List.append_assoc]⟩

-- The two orders of the edits give the same text, and after the style block was written the block is
-- found on the line that its header moved to.
def Commutes (indent : Nat) (source : Text) (graph : Style.Graph) (key value : Text)
    (block : Block) : Prop :=
  let written := Style.writeBlock indent source graph
  let moved := (written.toPatch source graph).shiftLine block.startLine
  ∃ there, locate? written.text moved = some there ∧ there.startLine = moved ∧
    there.blockType = block.blockType ∧ there.label = block.label ∧
    patchProperty written.text moved there.endLine key value =
      (Style.writeBlock indent
        (patchProperty source block.startLine block.endLine key value) graph).text

theorem commutes_of_parts {moved : Nat} {front' gap back' : List Text}
    (after : Parts (splitLines (Style.writeBlock indent source graph).text)
      ⟨moved, named.blockType, named.label⟩ front' line (inside ++ gap) back')
    (blank : ∀ line ∈ gap, isBlankLine line = true) (isKey : IsKey key)
    (shift : ((Style.writeBlock indent source graph).toPatch source graph).shiftLine named.line =
      moved)
    (rewritten : (Style.writeBlock indent
        (patchProperty source named.line (shown named inside).endLine key value) graph).text =
      joinLines (front' ++ line :: (setInside key (foldValue value) inside ++ (gap ++ back')))) :
    Commutes indent source graph key value (shown named inside) := by
  have patched := (after.patched_inside isKey value).whole
  rw [setInside_append_blanks blank, List.append_assoc] at patched
  have start : (shown named inside).startLine = named.line := rfl
  rw [Commutes, start, shift]
  refine ⟨_, after.locate?, rfl, rfl, rfl, ?_⟩
  rw [rewritten, ← patched, joinLines_splitLines]

-- A removed style block leaves its blank lines to the block right above it.
theorem gap_of_written {between : List Text}
    (region : Style.Region.Parts (splitLines source) above header body blanks below)
    (stop : ∀ line ∈ (between ++ header :: (body ++ (blanks ++ below))).head?,
      isBoundaryLine line = true) (written : List Text) :
    ∃ gap rest, between ++ (Style.blockLines header written ++ (blanks ++ below)) = gap ++ rest ∧
      (∀ line ∈ gap, isBlankLine line = true) ∧ (∀ line ∈ gap, isBoundaryLine line = false) ∧
      ∀ line ∈ rest.head?, isBoundaryLine line = true := by
  cases between with
  | cons first between => exact ⟨[], _, rfl, by simp, by simp, by simpa using stop⟩
  | nil =>
    rw [Style.blockLines]
    split
    · exact ⟨blanks, below, rfl, region.blank, fun line member => region.plain line (by simp [member]),
        region.stop⟩
    · exact ⟨[], _, rfl, by simp, by simp, by simpa using stop⟩

theorem commutes_above {between : List Text}
    (parts : Parts (splitLines source) named front line inside
      (between ++ header :: (body ++ (blanks ++ below))))
    (region : Style.Region.Parts (splitLines source) (front ++ line :: (inside ++ between)) header
      body blanks below) (isKey : IsKey key) (value : Text) (indent : Nat) (graph : Style.Graph) :
    Commutes indent source graph key value (shown named inside) := by
  have patched := parts.patched_inside isKey value
  have region' : Style.Region.Parts
      (splitLines (patchProperty source named.line (shown named inside).endLine key value))
      (front ++ line :: (setInside key (foldValue value) inside ++ between)) header body blanks
      below := by
    refine ⟨by simp [patched.whole], ?_, region.isHeader, region.plain, region.filled, region.blank,
      region.stop⟩
    have old := region.first
    simp only [List.forall_mem_append, List.forall_mem_cons] at old ⊢
    obtain ⟨inFront, here, _, inBetween⟩ := old
    exact ⟨inFront, here, fun other member => Style.isStyleHeader_eq_false (patched.plain other member),
      inBetween⟩
  obtain ⟨gap, rest, cut, blank, plain, stop⟩ :=
    gap_of_written region parts.stop (graph.bodyLines indent)
  have after : Parts (splitLines (Style.writeBlock indent source graph).text) named front line
      (inside ++ gap) rest := by
    refine ⟨?_, parts.place, parts.heads, parts.noStyle, ?_, stop⟩
    · rw [Style.splitLines_writeBlock region (by simp)]
      simp [cut]
    · exact List.forall_mem_append.mpr ⟨parts.plain, plain⟩
  refine commutes_of_parts after blank isKey ?_ ?_
  · refine (Style.spliced_writeBlock region).shiftLine_above ?_
    rw [parts.place]
    simp
  · rw [Style.writeBlock_of_parts region', ← cut]
    simp

theorem commutes_below {between : List Text}
    (parts : Parts (splitLines source) named
      (above ++ header :: (body ++ (blanks ++ between))) line inside back)
    (region : Style.Region.Parts (splitLines source) above header body blanks
      (between ++ line :: (inside ++ back))) (isKey : IsKey key) (value : Text) (indent : Nat)
    (graph : Style.Graph) :
    Commutes indent source graph key value (shown named inside) := by
  have patched := parts.patched_inside isKey value
  have region' : Style.Region.Parts
      (splitLines (patchProperty source named.line (shown named inside).endLine key value)) above
      header body blanks (between ++ line :: (setInside key (foldValue value) inside ++ back)) := by
    refine ⟨by simp [patched.whole], region.first, region.isHeader, region.plain, region.filled,
      region.blank, ?_⟩
    have stop := region.stop
    cases between <;> simpa using stop
  have written : splitLines (Style.writeBlock indent source graph).text =
      above ++ (Style.blockLines header (graph.bodyLines indent) ++
        (blanks ++ (between ++ line :: (inside ++ back)))) :=
    Style.splitLines_writeBlock region (by simp)
  generalize block : Style.blockLines header (graph.bodyLines indent) = added at written
  have after : Parts (splitLines (Style.writeBlock indent source graph).text)
      ⟨(above ++ (added ++ (blanks ++ between))).length + 1, named.blockType, named.label⟩
      (above ++ (added ++ (blanks ++ between))) line (inside ++ []) back :=
    ⟨by simp [written], rfl, parts.heads, parts.noStyle, by simpa using parts.plain, parts.stop⟩
  refine commutes_of_parts after (by simp) isKey ?_ ?_
  · have place := parts.place
    rw [(Style.spliced_writeBlock region).shiftLine_below ?_ parts.line_le, block, place]
    · simp only [List.length_append, List.length_cons]
      omega
    · simp only [place, List.length_append, List.length_cons]
      omega
  · rw [Style.writeBlock_of_parts region', block]
    simp

-- A property of a block can be set before the style block is written or after it, at the line that
-- the header of the block moved to.
theorem patchProperty_writeBlock (present : Style.HasStyle source) {number : Nat}
    (heads : HeadsBlock (splitLines source) number) (isKey : IsKey key) (value : Text)
    (indent : Nat) (graph : Style.Graph) :
    ∃ block, locate? source number = some block ∧ block.startLine = number ∧
      Commutes indent source graph key value block := by
  obtain ⟨blockType, label, isHeader, noStyle⟩ := heads
  obtain ⟨front, line, inside, back, parts⟩ := exists_parts_of_header isHeader noStyle
  obtain ⟨above, header, body, blanks, below, region⟩ := present.parts
  refine ⟨_, parts.locate?, rfl, ?_⟩
  rcases parts.beside region with ⟨between, rfl, rfl⟩ | ⟨between, rfl, rfl⟩
  · exact commutes_above parts region isKey value indent graph
  · exact commutes_below parts region isKey value indent graph

def cardStyleText : Text :=
  "--- core/card\nHi\n--- style\ncore/card\n  color: red\n\n--- core/text\nBye".toList

theorem patchProperty_writeBlock_cardStyleText :
    Style.HasStyle cardStyleText ∧ HeadsBlock (splitLines cardStyleText) 1 ∧
      HeadsBlock (splitLines cardStyleText) 7 ∧ IsKey "size".toList ∧
      (∃ block, locate? cardStyleText 1 = some block ∧ block.endLine = 3 ∧
        Commutes 2 cardStyleText .empty "size".toList "3".toList block) ∧
      ∃ block, locate? cardStyleText 7 = some block ∧ block.endLine = 9 ∧
        Commutes 2 cardStyleText .empty "size".toList "3".toList block := by
  have present : Style.HasStyle cardStyleText := by decide +kernel
  have card : HeadsBlock (splitLines cardStyleText) 1 :=
    ⟨"core/card".toList, none, by decide +kernel, by decide⟩
  have text : HeadsBlock (splitLines cardStyleText) 7 :=
    ⟨"core/text".toList, none, by decide +kernel, by decide⟩
  have isKey : IsKey "size".toList := ⟨'s', "ize".toList, .inl rfl, by decide, List.all_eq_true.mp rfl⟩
  refine ⟨present, card, text, isKey, ?_, ?_⟩
  · obtain ⟨block, located, _, commutes⟩ :=
      patchProperty_writeBlock present card isKey "3".toList 2 .empty
    have ends : (locate? cardStyleText 1).map Block.endLine = some 3 := by decide +kernel
    rw [located, Option.map_some, Option.some.injEq] at ends
    exact ⟨block, located, ends, commutes⟩
  · obtain ⟨block, located, _, commutes⟩ :=
      patchProperty_writeBlock present text isKey "3".toList 2 .empty
    have ends : (locate? cardStyleText 7).map Block.endLine = some 9 := by decide +kernel
    rw [located, Option.map_some, Option.some.injEq] at ends
    exact ⟨block, located, ends, commutes⟩

end Block
end BlockMarkup
