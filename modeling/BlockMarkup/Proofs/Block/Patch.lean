import BlockMarkup.Proofs.Block.Cluster
import BlockMarkup.Proofs.Block.Locate
import BlockMarkup.Proofs.Structure

namespace BlockMarkup

namespace Block

variable {text key value line : Text} {lines above inside below range after : List Text}
variable {named : Header} {start stop : Nat}

-- What writing a property makes of the lines that it looks at. The first line of the key is
-- written over or goes; without one, a line comes after the last property.
inductive Rewritten (key value : Text) : List Text → List Text → Prop where
  | same {range : List Text} (absent : key ∉ (pairs range).map Prod.fst) (empty : value = []) :
      Rewritten key value range range
  | replaced {front rest : List Text} {line indent old : Text}
      (leading : ∀ line ∈ front, Leading line) (first : key ∉ (pairs front).map Prod.fst)
      (read : Line.classify line = .property indent key old) (present : value ≠ []) :
      Rewritten key value (front ++ line :: rest)
        (front ++ (indent ++ propertyText key value) :: rest)
  | removed {front rest : List Text} {line indent old : Text}
      (leading : ∀ line ∈ front, Leading line) (first : key ∉ (pairs front).map Prod.fst)
      (read : Line.classify line = .property indent key old) (empty : value = []) :
      Rewritten key value (front ++ line :: rest) (front ++ rest)
  | inserted {front rest gap : List Text} (leading : ∀ line ∈ front, Leading line)
      (absent : key ∉ (pairs front).map Prod.fst) (last : pairs rest = []) (present : value ≠ [])
      (apart : gap = [] ∨ gap = [[]] ∧ rest.head?.map Line.classify = some .content) :
      Rewritten key value (front ++ rest) (front ++ propertyText key value :: (gap ++ rest))

theorem take_drop_split {split : List Text} (whole : lines = above ++ line :: (range ++ below))
    (cut : range = split ++ after) :
    lines.take (above.length + 1 + split.length) = above ++ line :: split ∧
      lines.drop (above.length + 1 + split.length) = after ++ below := by
  have length : above.length + 1 + split.length = (above ++ line :: split).length := by
    rw [List.length_append, List.length_cons]
    omega
  have parted : lines = (above ++ line :: split) ++ (after ++ below) := by
    simp [whole, cut]
  rw [length, parted]
  exact ⟨List.take_left, List.drop_left⟩

section writeProperty

variable {number : Nat} {under : List Text}

theorem rewritten_found (whole : lines = above ++ line :: (range ++ under))
    (place : number = above.length + 1) {found : PropertyLine}
    (first : (clusterFrom (number + 1) range).find? (fun other => other.key = key) = some found) :
    ∃ after, Rewritten key value range after ∧
      (if value = [] then lines.eraseIdx (found.line - 1)
        else replaceLine lines found.line (found.indent ++ propertyText key value)) =
        above ++ line :: (after ++ under) := by
  obtain ⟨sameKey, before, later, split, earlier⟩ := List.find?_eq_some_iff_append.mp first
  obtain ⟨front, here, rest, rfl, ⟨leading, line_eq, read⟩, headPairs, _⟩ := clusterFrom_cut split
  have key_eq : found.key = key := by simpa using sameKey
  rw [key_eq] at read
  have absent : key ∉ (pairs front).map Prod.fst := by
    refine (key_notMem_pairs_iff (number + 1)).mpr fun other member => ?_
    rw [headPairs] at member
    simpa using earlier other member
  have index : found.line - 1 = (above ++ line :: front).length := by
    rw [line_eq, place, List.length_append, List.length_cons]
    omega
  have parted : lines = (above ++ line :: front) ++ here :: (rest ++ under) := by
    simp [whole]
  split
  · rename_i empty
    refine ⟨front ++ rest, .removed leading absent read empty, ?_⟩
    rw [index, parted, List.eraseIdx_append_of_length_le (Nat.le_refl _)]
    simp
  · rename_i present
    refine ⟨_, .replaced leading absent read present, ?_⟩
    rw [replaceLine, index, parted, List.set_append_right _ _ (Nat.le_refl _)]
    simp

theorem rewritten_inserted (whole : lines = above ++ line :: (range ++ under))
    (place : number = above.length + 1) (length : range.length = stop - 1 - number)
    (absent : key ∉ (pairs range).map Prod.fst) (present : value ≠ []) {last : Nat}
    (last_eq : ((clusterFrom (number + 1) range).getLast?.map PropertyLine.line).getD number = last) :
    ∃ after, Rewritten key value range after ∧
      lines.take last ++ insertedLines lines last stop key value ++ lines.drop last =
        above ++ line :: (after ++ under) := by
  obtain ⟨front, rest, rfl, leading, noPairs, bottom⟩ := clusterFrom_end number range
  rw [bottom, place] at last_eq
  subst last_eq
  obtain ⟨taken, dropped⟩ := take_drop_split whole rfl
  have absentFront : key ∉ (pairs front).map Prod.fst := by
    rw [pairs_append leading, noPairs, List.append_nil] at absent
    exact absent
  have next : lines[above.length + 1 + front.length]? = (rest ++ under).head? := by
    rw [← List.head?_drop, dropped]
  rw [insertedLines, next]
  split
  · rename_i content
    simp only [Bool.and_eq_true, decide_eq_true_eq] at content
    obtain ⟨room, isContent⟩ := content
    -- There is room below the new line, so the next line is one of those looked at.
    have filled : rest ≠ [] := by
      rintro rfl
      rw [List.append_nil, place] at length
      omega
    rw [List.head?_append_of_ne_nil _ filled] at isContent
    refine ⟨_, .inserted leading absentFront noPairs present (.inr ⟨rfl, isContent⟩), ?_⟩
    rw [taken, dropped]
    simp
  · refine ⟨_, .inserted leading absentFront noPairs present (.inl rfl), ?_⟩
    rw [taken, dropped]
    simp

theorem rewritten_writeProperty (parts : Parts lines named above line inside below)
    (within : stop ≤ named.line + 1 + inside.length) (key value : Text) :
    ∃ range tail after, inside = range ++ tail ∧ range.length = stop - 1 - named.line ∧
      Rewritten key value range after ∧
      writeProperty lines named.line stop key value = above ++ line :: (after ++ (tail ++ below)) := by
  have cluster := parts.propertyCluster within
  have length : (inside.take (stop - 1 - named.line)).length = stop - 1 - named.line := by
    rw [List.length_take]
    omega
  have whole : lines = above ++ line :: (inside.take (stop - 1 - named.line) ++
      (inside.drop (stop - 1 - named.line) ++ below)) := by
    rw [← List.append_assoc (inside.take _), List.take_append_drop]
    exact parts.whole
  refine ⟨inside.take (stop - 1 - named.line), inside.drop (stop - 1 - named.line), ?_⟩
  rw [List.take_append_drop]
  generalize inside.take (stop - 1 - named.line) = range at *
  simp only [writeProperty, cluster, true_and, length]
  split
  · rename_i found first
    exact rewritten_found whole parts.place first
  · rename_i none
    have absent : key ∉ (pairs range).map Prod.fst := by
      refine (key_notMem_pairs_iff (named.line + 1)).mpr fun other member => ?_
      simpa using List.find?_eq_none.mp none other member
    split
    · rename_i empty
      exact ⟨range, .same absent empty, whole⟩
    · rename_i present
      exact rewritten_inserted whole parts.place length absent present rfl

end writeProperty

-- What holds of the old lines, of a written property and of the empty line holds of the new lines.
theorem forall_mem_rewritten {P : Text → Prop} (rewritten : Rewritten key value range after)
    (old : ∀ line ∈ range, P line)
    (changed : ∀ line ∈ range, ∀ indent value', Line.classify line = .property indent key value' →
      value ≠ [] → P (indent ++ propertyText key value))
    (new : value ≠ [] → P (propertyText key value)) (blank : P []) : ∀ line ∈ after, P line := by
  cases rewritten with
  | same _ _ => exact old
  | @replaced front rest here indent value' _ _ read present =>
    intro line member
    rcases List.mem_append.mp member with before | inside
    · exact old line (List.mem_append_left _ before)
    rcases List.mem_cons.mp inside with rfl | later
    · exact changed here (by simp) indent value' read present
    · exact old line (by simp [later])
  | removed _ _ _ _ =>
    intro line member
    rcases List.mem_append.mp member with before | later
    · exact old line (List.mem_append_left _ before)
    · exact old line (by simp [later])
  | inserted _ _ _ present apart =>
    intro line member
    rcases List.mem_append.mp member with before | inside
    · exact old line (List.mem_append_left _ before)
    rcases List.mem_cons.mp inside with rfl | below
    · exact new present
    rcases List.mem_append.mp below with gap | later
    · rcases apart with rfl | ⟨rfl, _⟩
      · cases gap
      · rw [List.mem_singleton.mp gap]
        exact blank
    · exact old line (List.mem_append_right _ later)

theorem newline_notMem_rewritten (rewritten : Rewritten key value range after)
    (plain : ∀ line ∈ range, '\n' ∉ line) (keys : '\n' ∉ key) (values : '\n' ∉ value) :
    ∀ line ∈ after, '\n' ∉ line := by
  have written : '\n' ∉ propertyText key value := by simp [propertyText, keys, values]
  refine forall_mem_rewritten rewritten plain ?_ (fun _ => written) (by simp)
  intro line member indent old read _ inside
  rcases List.mem_append.mp inside with blanks | here
  · exact plain line member ((indent_of_classify read).2 blanks)
  · exact written here

theorem plain_rewritten (rewritten : Rewritten key value range after)
    (plain : ∀ line ∈ range, isBoundaryLine line = false) (isKey : IsKey key)
    (trimmed : trim value = value) (values : '\n' ∉ value) :
    ∀ line ∈ after, isBoundaryLine line = false := by
  have written : ∀ indent : Text, (∀ c ∈ indent, isBlank c = true) → value ≠ [] →
      isBoundaryLine (indent ++ propertyText key value) = false := by
    intro indent blanks _
    rw [isBoundaryLine, classify_propertyText blanks isKey trimmed values]
    rfl
  refine forall_mem_rewritten rewritten plain ?_ ?_ rfl
  · exact fun line _ indent old read => written indent (indent_of_classify read).1
  · exact written [] (by simp)

-- One line inside a range of a block is written over or goes, or a line is put into the block, with
-- a blank line below it when it would stand right above content of the range.
inductive LineEdit (lines : List Text) (start stop : Nat) (key value : Text) : List Text → Prop where
  | unchanged : LineEdit lines start stop key value lines
  | replaced {above below : List Text} {line indent old : Text} (cut : lines = above ++ line :: below)
      (after : start < above.length + 1)
      (before : above.length + 1 < min stop (boundaryAfter lines start))
      (read : Line.classify line = .property indent key old) :
      LineEdit lines start stop key value (above ++ (indent ++ propertyText key value) :: below)
  | removed {above below : List Text} {line indent old : Text} (cut : lines = above ++ line :: below)
      (after : start < above.length + 1)
      (before : above.length + 1 < min stop (boundaryAfter lines start))
      (read : Line.classify line = .property indent key old) :
      LineEdit lines start stop key value (above ++ below)
  | inserted {above below gap : List Text} (cut : lines = above ++ below)
      (after : start ≤ above.length) (before : above.length < boundaryAfter lines start)
      (apart : gap = [] ∨ gap = [[]] ∧ above.length + 1 < min stop (boundaryAfter lines start) ∧
        below.head?.map Line.classify = some .content) :
      LineEdit lines start stop key value (above ++ propertyText key value :: (gap ++ below))

def HeadsBlock (lines : List Text) (number : Nat) : Prop :=
  ∃ blockType label, (lineAt? lines number).map Line.classify = some (.header blockType label) ∧
    blockType ≠ styleType

theorem lineEdit_of_rewritten {tail : List Text} {stop : Nat}
    (parts : Parts lines named above line inside below) (cut : inside = range ++ tail)
    (length : range.length =
      min stop (BlockMarkup.boundaryAfter lines named.line) - 1 - named.line)
    (rewritten : Rewritten key value range after) :
    LineEdit lines named.line stop key value (above ++ line :: (after ++ (tail ++ below))) := by
  have whole : lines = above ++ line :: (range ++ (tail ++ below)) := by
    rw [parts.whole, cut, List.append_assoc]
  have place := parts.place
  have inBlock : range.length ≤ inside.length := by simp [cut]
  have blockEnd := parts.boundaryAfter
  cases rewritten with
  | same _ _ =>
    rw [← whole]
    exact .unchanged
  | @replaced front rest here indent old _ _ read _ =>
    have edited : above ++ line ::
          ((front ++ (indent ++ propertyText key value) :: rest) ++ (tail ++ below)) =
        (above ++ line :: front) ++
          (indent ++ propertyText key value) :: (rest ++ (tail ++ below)) := by simp
    rw [List.length_append, List.length_cons] at length
    rw [edited]
    refine .replaced (by simpa using whole) ?_ ?_ read
    all_goals
      rw [List.length_append, List.length_cons]
      omega
  | @removed front rest here indent old _ _ read _ =>
    have edited : above ++ line :: ((front ++ rest) ++ (tail ++ below)) =
        (above ++ line :: front) ++ (rest ++ (tail ++ below)) := by simp
    rw [List.length_append, List.length_cons] at length
    rw [edited]
    refine .removed (by simpa using whole) ?_ ?_ read
    all_goals
      rw [List.length_append, List.length_cons]
      omega
  | @inserted front rest gap _ _ _ _ apart =>
    have edited : above ++ line ::
          ((front ++ propertyText key value :: (gap ++ rest)) ++ (tail ++ below)) =
        (above ++ line :: front) ++
          propertyText key value :: (gap ++ (rest ++ (tail ++ below))) := by simp
    rw [List.length_append] at length inBlock
    rw [edited]
    refine .inserted (by simpa using whole) ?_ ?_ ?_
    · rw [List.length_append, List.length_cons]
      omega
    · rw [List.length_append, List.length_cons]
      omega
    · refine apart.imp_right fun ⟨single, content⟩ => ⟨single, ?_, ?_⟩
      · have filled : rest ≠ [] := by
          rintro rfl
          cases content
        have room := List.length_pos_iff.mpr filled
        rw [List.length_append, List.length_cons]
        omega
      · have filled : rest ≠ [] := by
          rintro rfl
          cases content
        rwa [List.head?_append_of_ne_nil _ filled]

theorem headsBlock_of_parts (parts : Parts lines named above line inside below) :
    HeadsBlock lines named.line := by
  refine ⟨named.blockType, named.label, ?_, parts.noStyle⟩
  have there : lineAt? lines named.line = some line := by simp [lineAt?, parts.place, parts.whole]
  rw [there, Option.map_some, parts.heads]

theorem patchProperty_of_not_header (text : Text) (stop : Nat) (key value : Text)
    (noBlock : ¬HeadsBlock (splitLines text) start) :
    patchProperty text start stop key value = text := by
  unfold patchProperty
  split
  · rfl
  · rename_i block located
    split
    · rename_i here
      obtain ⟨_, _, _, _, _, parts, rfl⟩ := exists_parts_of_locate? located here
      exact absurd (headsBlock_of_parts parts) noBlock
    · rfl

theorem splitLines_patchProperty_eq (parts : Parts (splitLines text) named above line inside below)
    (stop : Nat) (value : Text) (plain : '\n' ∉ key) :
    splitLines (patchProperty text named.line stop key value) =
      writeProperty (splitLines text) named.line (min stop (named.line + 1 + inside.length)) key
        (foldValue value) := by
  obtain ⟨range, tail, after, cut, _, rewritten, written⟩ := rewritten_writeProperty parts
    (Nat.min_le_right stop (named.line + 1 + inside.length)) key (foldValue value)
  have old : ∀ other ∈ above ++ line :: (range ++ (tail ++ below)), '\n' ∉ other := by
    rw [← List.append_assoc range, ← cut, ← parts.whole]
    exact fun other member => newline_notMem_of_mem_splitLines member
  have new : ∀ other ∈ above ++ line :: (after ++ (tail ++ below)), '\n' ∉ other := by
    have inside := newline_notMem_rewritten rewritten (fun other member => old other (by simp [member]))
      plain (foldValue_trimmed value).2
    intro other member
    rcases List.mem_append.mp member with before | rest
    · exact old other (by simp [before])
    rcases List.mem_cons.mp rest with rfl | rest
    · exact old other (by simp)
    rcases List.mem_append.mp rest with here | rest
    · exact inside other here
    · exact old other (by simp [List.mem_append.mp rest])
  have patched : patchProperty text named.line stop key value =
      joinLines (writeProperty (splitLines text) named.line
        (min stop (named.line + 1 + inside.length)) key (foldValue value)) := by
    simp only [patchProperty, parts.locate?, shown, ↓reduceIte]
  rw [patched, written, splitLines_joinLines (by simp) new]

theorem splitLines_patchProperty (parts : Parts (splitLines text) named above line inside below)
    (stop : Nat) (value : Text) (plain : '\n' ∉ key) :
    ∃ range tail after, inside = range ++ tail ∧
      range.length = min stop (boundaryAfter (splitLines text) named.line) - 1 - named.line ∧
      Rewritten key (foldValue value) range after ∧
      splitLines (patchProperty text named.line stop key value) =
        above ++ line :: (after ++ (tail ++ below)) := by
  rw [parts.boundaryAfter, splitLines_patchProperty_eq parts stop value plain]
  exact rewritten_writeProperty parts (Nat.min_le_right stop (named.line + 1 + inside.length)) key
    (foldValue value)

theorem lineEdit_patchProperty (heads : HeadsBlock (splitLines text) start) (stop : Nat)
    (value : Text) (plain : '\n' ∉ key) :
    LineEdit (splitLines text) start stop key (foldValue value)
      (splitLines (patchProperty text start stop key value)) := by
  obtain ⟨blockType, label, isHeader, noStyle⟩ := heads
  obtain ⟨_, _, _, _, parts⟩ := exists_parts_of_header isHeader noStyle
  obtain ⟨range, tail, after, cut, length, rewritten, written⟩ :=
    splitLines_patchProperty parts stop value plain
  rw [written]
  exact lineEdit_of_rewritten parts cut length rewritten

theorem newline_notMem_key (isKey : IsKey key) : '\n' ∉ key := by
  intro member
  have solid := isKey.solid.2 _ member
  cases solid

theorem structure_patchProperty (text : Text) (start stop : Nat) (value : Text)
    (isKey : IsKey key) :
    openings (splitLines (patchProperty text start stop key value)) =
        openings (splitLines text) ∧
      Style.Graph.ofSource (patchProperty text start stop key value) =
        Style.Graph.ofSource text := by
  by_cases heads : HeadsBlock (splitLines text) start
  · obtain ⟨blockType, label, isHeader, noStyle⟩ := heads
    obtain ⟨above, line, inside, below, parts⟩ := exists_parts_of_header isHeader noStyle
    obtain ⟨range, tail, after, rfl, _, rewritten, written⟩ :=
      splitLines_patchProperty parts stop value (newline_notMem_key isKey)
    obtain ⟨trimmed, values⟩ := foldValue_trimmed value
    have old : ∀ other ∈ range ++ tail, isBoundaryLine other = false := parts.plain
    have new : ∀ other ∈ after ++ tail, isBoundaryLine other = false := by
      have inRange := plain_rewritten rewritten (fun other member => old other (by simp [member]))
        isKey trimmed values
      intro other member
      rcases List.mem_append.mp member with here | later
      · exact inRange other here
      · exact old other (by simp [later])
    have other := parts.isStyleHeader_eq_false
    have opens := isBoundaryLine_of_header parts.heads
    rw [Style.ofSource_eq_ofLines, Style.ofSource_eq_ofLines, written, parts.whole,
      ← List.append_assoc after]
    constructor
    · have same := openings_between (above ++ [line]) below new old
      simpa only [List.append_assoc, List.singleton_append] using same
    · rw [Style.styleLines_under opens other new old]
  · rw [patchProperty_of_not_header text stop key value heads]
    exact ⟨rfl, rfl⟩

theorem patchProperty_edits (text : Text) (start stop : Nat) (key value : Text)
    (plain : '\n' ∉ key) :
    (HeadsBlock (splitLines text) start →
        LineEdit (splitLines text) start stop key (foldValue value)
          (splitLines (patchProperty text start stop key value))) ∧
      (¬HeadsBlock (splitLines text) start → patchProperty text start stop key value = text) ∧
      (IsKey key →
        (outline (patchProperty text start stop key value)).map
              (fun entry => (entry.blockType, entry.label)) =
            (outline text).map (fun entry => (entry.blockType, entry.label)) ∧
          Style.Graph.ofSource (patchProperty text start stop key value) =
            Style.Graph.ofSource text) := by
  refine ⟨fun heads => ?_, fun noBlock => ?_, fun isKey => ?_⟩
  · exact lineEdit_patchProperty heads stop value plain
  · exact patchProperty_of_not_header text stop key value noBlock
  · rw [outline_names, outline_names]
    exact structure_patchProperty text start stop value isKey

end Block
end BlockMarkup
