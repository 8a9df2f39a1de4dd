import BlockMarkup.Proofs.Text

namespace BlockMarkup

variable {lines : List Text} {line t : Text}

theorem splitLines_joinLines (present : lines ≠ []) (plain : ∀ line ∈ lines, '\n' ∉ line) :
    splitLines (joinLines lines) = lines :=
  List.splitOn_intercalate '\n' plain present

theorem newline_notMem_of_mem_splitLines (member : line ∈ splitLines t) : '\n' ∉ line := by
  induction t generalizing line with
  | nil =>
    simp only [splitLines, List.splitOn_nil, List.mem_singleton] at member
    simp [member]
  | cons c rest ih =>
    rw [splitLines, List.splitOn_cons_eq_if_modifyHead] at member
    split at member
    · rcases List.mem_cons.mp member with rfl | later
      · simp
      · exact ih later
    · rename_i other
      obtain ⟨first, more, pieces⟩ := List.exists_cons_of_ne_nil (List.splitOn_ne_nil '\n' rest)
      rw [pieces, List.modifyHead_cons] at member
      rcases List.mem_cons.mp member with rfl | later
      · have inFirst : '\n' ∉ first := ih (by simp [splitLines, pieces])
        simp only [List.mem_cons, not_or]
        exact ⟨fun same => other (by simp [← same]), inFirst⟩
      · exact ih (by simp [splitLines, pieces, later])

theorem joinLines_cons (present : lines ≠ []) (line : Text) :
    joinLines (line :: lines) = line ++ '\n' :: joinLines lines := by
  rw [joinLines, List.intercalate_cons_of_ne_nil present, ← joinLines, List.append_assoc]
  rfl

theorem joinLines_eq_nil_iff : joinLines lines = [] ↔ lines = [] ∨ lines = [[]] := by
  match lines with
  | [] => simp [joinLines]
  | [line] => simp [joinLines]
  | first :: second :: rest => simp [joinLines_cons]

theorem splitLines_of_plain (plain : '\n' ∉ t) : splitLines t = [t] :=
  List.splitOn_eq_singleton plain

theorem splitLines_append_newline (front back : Text) :
    splitLines (front ++ '\n' :: back) = splitLines front ++ splitLines back :=
  List.splitOn_append_cons_of_beq front back (by simp)

theorem splitLines_append {front : Text} (plain : '\n' ∉ front) (t : Text) :
    splitLines (front ++ t) = (splitLines t).modifyHead (front ++ ·) := by
  induction front with
  | nil =>
    obtain ⟨first, more, pieces⟩ := List.exists_cons_of_ne_nil (List.splitOn_ne_nil '\n' t)
    rw [List.nil_append, splitLines, pieces]
    rfl
  | cons c front ih =>
    simp only [List.mem_cons, not_or] at plain
    have other : (c == '\n') = false := by simpa using Ne.symm plain.1
    obtain ⟨first, more, pieces⟩ := List.exists_cons_of_ne_nil (List.splitOn_ne_nil '\n' t)
    have later := ih plain.2
    rw [splitLines, splitLines, pieces] at later
    rw [splitLines, splitLines, List.cons_append, List.splitOn_cons_eq_if_modifyHead, other, later,
      pieces]
    rfl

theorem tail_splitLines_append {front : Text} (plain : '\n' ∉ front) (t : Text) :
    (splitLines (front ++ t)).tail = (splitLines t).tail := by
  rw [splitLines_append plain]
  cases splitLines t <;> rfl

-- Pieces that span lines themselves are split further.
theorem splitLines_joinLines_eq_flatMap (present : lines ≠ []) :
    splitLines (joinLines lines) = lines.flatMap splitLines := by
  induction lines with
  | nil => exact absurd rfl present
  | cons line rest ih =>
    cases rest with
    | nil => simp [joinLines]
    | cons next more =>
      rw [joinLines_cons (List.cons_ne_nil _ _), splitLines_append_newline, ih (List.cons_ne_nil _ _)]
      rfl

theorem lineCount_pos (t : Text) : 0 < lineCount t :=
  List.length_pos_iff.mpr (List.splitOn_ne_nil '\n' t)

theorem length_le_lineCount_joinLines (lines : List Text) :
    lines.length ≤ lineCount (joinLines lines) := by
  cases lines with
  | nil => exact Nat.zero_le _
  | cons first rest =>
    rw [lineCount, splitLines_joinLines_eq_flatMap (List.cons_ne_nil first rest)]
    generalize first :: rest = lines
    induction lines with
    | nil => exact Nat.le_refl _
    | cons line rest ih =>
      have positive := lineCount_pos line
      rw [lineCount] at positive
      rw [List.flatMap_cons, List.length_append, List.length_cons]
      omega

theorem lineAt?_pos {number : Nat} (there : lineAt? lines number = some line) : 1 ≤ number := by
  cases number with
  | zero => cases there
  | succ index => exact Nat.succ_pos index

theorem exists_lineAt?_iff {number : Nat} : (∃ line, lineAt? lines number = some line) ↔
    1 ≤ number ∧ number ≤ lines.length := by
  cases number with
  | zero => simp [lineAt?]
  | succ index =>
    rw [lineAt?, ← Option.isSome_iff_exists, isSome_getElem?]
    omega

theorem joinLines_cut (above below : List Text) :
    ∃ front back, (∀ c ∈ back.head?, c = '\n') ∧
      ∀ line, joinLines (above ++ line :: below) = front ++ (line ++ back) := by
  induction above with
  | nil =>
    cases below with
    | nil => exact ⟨[], [], by simp, fun line => by simp [joinLines]⟩
    | cons next rest =>
      exact ⟨[], '\n' :: joinLines (next :: rest), by simp, joinLines_cons (List.cons_ne_nil _ _)⟩
  | cons first rest ih =>
    obtain ⟨front, back, newline, whole⟩ := ih
    refine ⟨first ++ '\n' :: front, back, newline, fun line => ?_⟩
    have later : rest ++ line :: below ≠ [] := by simp
    rw [List.cons_append, joinLines_cons later, whole, List.append_assoc]
    rfl

theorem header?_eq_some {kind : Line} (read : Line.header? line = some kind) :
    kind.isBoundary = true := by
  unfold Line.header? at read
  split at read
  · cases read
  all_goals
    split at read
    · cases read
    · obtain ⟨_, _, rfl⟩ := Option.map_eq_some_iff.mp read
      rfl

theorem property?_eq_some {kind : Line} (read : Line.property? line = some kind) :
    kind.isProperty = true := by
  unfold Line.property? at read
  split at read
  · cases read
  · dsimp only at read
    split at read
    · cases read
    · cases read
      rfl

theorem classify_cases (line : Text) :
    (dropReturn line).all isBlank = true ∧ Line.classify line = .blank ∨
      Line.header? (dropReturn line) = some (Line.classify line) ∨
      Line.property? (dropReturn line) = some (Line.classify line) ∨
      Line.classify line = .content := by
  cases blank : (dropReturn line).all isBlank with
  | true =>
    left
    simp [Line.classify, blank]
  | false =>
    right
    cases header : Line.header? (dropReturn line) with
    | some boundary =>
      left
      simp [Line.classify, blank, header]
    | none =>
      right
      cases property : Line.property? (dropReturn line) with
      | some found =>
        left
        simp [Line.classify, blank, header, property]
      | none =>
        right
        simp [Line.classify, blank, header, property]

theorem classify_ne_blank (solid : (dropReturn line).all isBlank = false) :
    Line.classify line ≠ .blank := by
  intro kind
  rcases classify_cases line with ⟨blank, _⟩ | header | property | content
  · rw [solid] at blank
    cases blank
  · rw [kind] at header
    cases header?_eq_some header
  · rw [kind] at property
    cases property?_eq_some property
  · rw [kind] at content
    cases content

theorem header?_eq_none (first : line.head? ≠ some '-') :
    Line.header? line = none := by
  have noDashes : Line.afterDashes? line = none := by
    cases line with
    | nil => rfl
    | cons c rest =>
      have other : c ≠ '-' := by simpa using first
      simp [Line.afterDashes?, dropStart?, Ne.symm other]
  rw [Line.header?, noDashes]

theorem isBoundaryLine_of_header?_eq_none (noHeader : Line.header? (dropReturn line) = none) :
    isBoundaryLine line = false := by
  rcases classify_cases line with ⟨_, blank⟩ | header | property | content
  · rw [isBoundaryLine, blank]
    rfl
  · rw [noHeader] at header
    cases header
  · have isProperty := property?_eq_some property
    cases kind : Line.classify line with
    | property indent key value => simp [isBoundaryLine, kind, Line.isBoundary]
    | _ => simp [kind, Line.isProperty] at isProperty
  · rw [isBoundaryLine, content]
    rfl

theorem isBoundaryLine_eq_false (first : line.head? ≠ some '-') : isBoundaryLine line = false := by
  refine isBoundaryLine_of_header?_eq_none (header?_eq_none fun dash => first ?_)
  obtain ⟨rest, same⟩ := List.head?_eq_some_iff.mp dash
  rw [← dropReturn_append_finalReturn line, same]
  rfl

-- After its dashes a boundary has a blank, so it does not start with a word and a colon.
theorem header?_of_word {word : Text} (solid : ∀ c ∈ word, isBlank c = false) (rest : Text) :
    Line.header? (word ++ ':' :: rest) = none := by
  have noDashes : Line.afterDashes? (word ++ ':' :: rest) = none := by
    unfold Line.afterDashes?
    split
    · rename_i c more found
      have shape := dropStart?_eq_some_iff.mp found
      have filled : isBlank c = false := by
        match word with
        | [] => cases shape
        | [_] => cases shape
        | [_, _] => cases shape
        | [_, _, _] =>
          cases shape
          rfl
        | _ :: _ :: _ :: _ :: _ =>
          cases shape
          exact solid c (by simp)
      simp [filled]
    · rfl
  rw [Line.header?, noDashes]

theorem header?_of_classify {blockType : Text} {label : Option Text}
    (kind : Line.classify line = .header blockType label) :
    Line.header? (dropReturn line) = some (.header blockType label) := by
  rcases classify_cases line with ⟨_, blank⟩ | header | property | content
  · rw [kind] at blank
    cases blank
  · rw [header, kind]
  · rw [kind] at property
    cases property?_eq_some property
  · rw [kind] at content
    cases content

theorem classify_of_header? {kind : Line} (read : Line.header? (dropReturn line) = some kind) :
    Line.classify line = kind := by
  have solid : (dropReturn line).all isBlank = false := by
    cases blank : (dropReturn line).all isBlank with
    | false => rfl
    | true =>
      have first : (dropReturn line).head? ≠ some '-' := by
        intro dash
        cases List.all_eq_true.mp blank '-' (List.mem_of_mem_head? dash)
      rw [header?_eq_none first] at read
      cases read
  simp [Line.classify, solid, read]

theorem isTypeChar_ofNat_blankCodes : ∀ n ∈ blankCodes, Line.isTypeChar (Char.ofNat n) = false := by
  have marks : ∀ n ∈ blankCodes,
      Char.ofNat n ≠ '.' ∧ Char.ofNat n ≠ '-' ∧ Char.ofNat n ≠ '/' := by decide
  intro n code
  obtain ⟨dot, dash, slash⟩ := marks n code
  simp [Line.isTypeChar, isWord_ofNat_blankCodes n code, dot, dash, slash]

theorem isTypeStart_ofNat_blankCodes : ∀ n ∈ blankCodes, Line.isTypeStart (Char.ofNat n) = false := by
  decide

theorem filled_of_takeType? {t blockType rest : Text}
    (taken : Line.takeType? t = some (blockType, rest)) :
    blockType ≠ [] ∧ ∀ c ∈ blockType, isBlank c = false := by
  cases t with
  | nil => cases taken
  | cons c t =>
    rw [Line.takeType?] at taken
    split at taken
    · rename_i start
      cases taken
      refine ⟨List.cons_ne_nil _ _, ?_⟩
      intro d member
      rcases List.mem_cons.mp member with same | inside
      · rw [same]
        exact isBlank_of_class isTypeStart_ofNat_blankCodes start
      · exact isBlank_of_class isTypeChar_ofNat_blankCodes (List.mem_takeWhile_imp inside)
    · cases taken

theorem trimmed_of_labelAfter? {rest label : Text}
    (read : Line.labelAfter? rest = some (some label)) :
    label ≠ [] ∧ trim label = label ∧ '\n' ∉ label := by
  unfold Line.labelAfter? at read
  split at read
  · cases read
  · dsimp only at read
    split at read
    · cases read
    · rename_i plain
      split at read
      · cases read
      · rename_i present
        cases read
        exact ⟨present, trim_trim _, plain⟩
  · cases read

structure Header.Trimmed (header : Header) : Prop where
  present : header.blockType ≠ []
  solid : ∀ c ∈ header.blockType, isBlank c = false
  label : ∀ label ∈ header.label, label ≠ [] ∧ trim label = label ∧ '\n' ∉ label

theorem Header.Trimmed.trim_blockType {header : Header} (trimmed : header.Trimmed) :
    trim header.blockType = header.blockType := by
  refine trim_eq_self ?_ ?_
  · exact fun c first => trimmed.solid c (List.mem_of_mem_head? first)
  · exact fun c last => trimmed.solid c (List.mem_of_getLast? last)

theorem trimmed_of_header? {line blockType : Text} {label : Option Text} {number : Nat}
    (read : Line.header? line = some (.header blockType label)) :
    (Header.mk number blockType label).Trimmed := by
  unfold Line.header? at read
  split at read
  · cases read
  · split at read
    · cases read
    · obtain ⟨_, _, kind⟩ := Option.map_eq_some_iff.mp read
      cases kind
  · split at read
    · cases read
    · rename_i taken
      obtain ⟨named, after, kind⟩ := Option.map_eq_some_iff.mp read
      cases kind
      obtain ⟨present, solid⟩ := filled_of_takeType? taken
      refine ⟨present, solid, ?_⟩
      intro text given
      cases given
      exact trimmed_of_labelAfter? after

theorem trimmed_of_mem_headersFrom {lines : List Text} {number : Nat} {header : Header}
    (member : header ∈ headersFrom number lines) : header.Trimmed := by
  induction lines generalizing number with
  | nil => cases member
  | cons line rest ih =>
    unfold headersFrom at member
    split at member
    · rename_i blockType label kind
      cases member with
      | head => exact trimmed_of_header? (header?_of_classify kind)
      | tail _ later => exact ih later
    · exact ih member

end BlockMarkup
