import BlockMarkup.Proofs.Style.Body
import BlockMarkup.Proofs.Style.Write

namespace BlockMarkup.Style

variable {indent : Nat} {source : Text} {graph : Graph} {edit : Edit} {patch : Patch}

def filledLines (lines : List Text) : List Text := lines.filter fun line => !isBlankLine line

def outsideLines (source : Text) : List Text :=
  match Region.first? source with
  | none => splitLines source
  | some region =>
    (splitLines source).take (region.headerLine - 1) ++ (splitLines source).drop (region.bodyEnd - 1)

def filledOutside (source : Text) : List Text := filledLines (outsideLines source)

theorem filledLines_append (front back : List Text) :
    filledLines (front ++ back) = filledLines front ++ filledLines back := List.filter_append ..

theorem filledLines_eq_nil_iff {lines : List Text} :
    filledLines lines = [] ↔ ∀ line ∈ lines, isBlankLine line = true := by
  simp [filledLines]

theorem filledLines_cons {line : Text} {rest : List Text} (filled : isBlankLine line = false) :
    filledLines (line :: rest) = line :: filledLines rest := by
  simp [filledLines, filled]

section parts

variable {header : Text} {above body blanks below : List Text}

theorem filledOutside_of_parts
    (parts : Region.Parts (splitLines source) above header body blanks below) :
    filledOutside source = filledLines above ++ filledLines below := by
  have whole : splitLines source = (above ++ header :: body) ++ (blanks ++ below) := by
    simp [parts.whole]
  have length : above.length + 2 + body.length - 1 = (above ++ header :: body).length := by
    simp only [List.length_append, List.length_cons]
    omega
  have front : (splitLines source).take (above.length + 1 - 1) = above := by simp [parts.whole]
  have back : (splitLines source).drop (above.length + 2 + body.length - 1) = blanks ++ below := by
    rw [length, whole, List.drop_left]
  rw [filledOutside, outsideLines, parts.first?]
  dsimp only
  rw [front, back, filledLines_append, filledLines_append, filledLines_eq_nil_iff.mpr parts.blank,
    List.nil_append]

theorem filledOutside_of_none (absent : Region.first? source = none) :
    filledOutside source = filledLines (splitLines source) := by
  rw [filledOutside, outsideLines, absent]

end parts

theorem parts_written {header : Text} {above body below : List Text}
    (lines : splitLines source = above ++ header :: (body ++ below))
    (first : ∀ line ∈ above, isStyleHeader line = false) (isHeader : isStyleHeader header = true)
    (closed : ∀ line ∈ body.getLast?, isBlankLine line = false)
    (plain : ∀ line ∈ body, isBoundaryLine line = false)
    (gap : ∀ line ∈ linesToBoundary below, isBlankLine line = true) :
    ∃ rest, Region.Parts (splitLines source) above header body (linesToBoundary below) rest := by
  obtain ⟨rest, cut, captured, stop⟩ := linesToBoundary_split below
  refine ⟨rest, ?_, first, isHeader, ?_, closed, gap, stop⟩
  · rw [lines, ← cut]
  · intro line member
    exact (List.mem_append.mp member).elim (plain line) (captured line)

-- A body without boundaries takes what follows it, up to the next boundary, into the block.
theorem parts_captured {header : Text} {above body below : List Text}
    (lines : splitLines source = above ++ header :: (body ++ below))
    (first : ∀ line ∈ above, isStyleHeader line = false) (isHeader : isStyleHeader header = true)
    (closed : ∀ line ∈ body.getLast?, isBlankLine line = false)
    (plain : ∀ line ∈ body, isBoundaryLine line = false) :
    ∃ blanks rest, below = linesToBoundary below ++ rest ∧
      Region.Parts (splitLines source) above header
        (body ++ dropBlankTail (linesToBoundary below)) blanks rest := by
  obtain ⟨rest, cut, captured, stop⟩ := linesToBoundary_split below
  obtain ⟨blanks, tail, blank, filled⟩ := dropBlankTail_split (linesToBoundary below)
  refine ⟨blanks, rest, cut, ?_, first, isHeader, ?_, ?_, blank, stop⟩
  · rw [lines, List.append_assoc, ← List.append_assoc _ blanks, ← tail, ← cut]
  · intro line member
    rw [List.append_assoc, ← tail] at member
    exact (List.mem_append.mp member).elim (plain line) (captured line)
  · intro line last
    rw [List.getLast?_append] at last
    cases found : (dropBlankTail (linesToBoundary below)).getLast? with
    | none => exact closed line (by simpa [found] using last)
    | some other => exact filled line (by simpa [found] using last)

theorem parts_broken {header : Text} {above body below : List Text}
    (lines : splitLines source = above ++ header :: (body ++ below))
    (first : ∀ line ∈ above, isStyleHeader line = false) (isHeader : isStyleHeader header = true)
    (broken : ¬∀ line ∈ body, isBoundaryLine line = false) :
    ∃ blanks boundary rest, isBoundaryLine boundary = true ∧
      Region.Parts (splitLines source) above header (dropBlankTail (linesToBoundary body)) blanks
        (boundary :: rest ++ below) := by
  obtain ⟨rest, cut, captured, stop⟩ := linesToBoundary_split body
  obtain ⟨blanks, tail, blank, filled⟩ := dropBlankTail_split (linesToBoundary body)
  cases rest with
  | nil =>
    rw [List.append_nil] at cut
    exact absurd (fun line member => captured line (cut ▸ member)) broken
  | cons boundary rest =>
    have isBoundary := stop boundary rfl
    refine ⟨blanks, boundary, rest, isBoundary, ?_, first, isHeader, ?_, filled, blank, ?_⟩
    · rw [lines, ← List.append_assoc _ blanks, ← tail, ← List.append_assoc, ← cut]
    · rw [← tail]
      exact captured
    · intro _ member
      cases member
      exact isBoundary

theorem filledOutside_written {header : Text} {above body below : List Text}
    (lines : splitLines source = above ++ header :: (body ++ below))
    (first : ∀ line ∈ above, isStyleHeader line = false) (isHeader : isStyleHeader header = true)
    (closed : ∀ line ∈ body.getLast?, isBlankLine line = false) :
    filledOutside source = filledLines above ++ filledLines below ↔
      (∀ line ∈ body, isBoundaryLine line = false) ∧
        ∀ line ∈ linesToBoundary below, isBlankLine line = true := by
  by_cases plain : ∀ line ∈ body, isBoundaryLine line = false
  · obtain ⟨blanks, rest, cut, parts⟩ := parts_captured lines first isHeader closed plain
    have below_filled : filledLines below =
        filledLines (linesToBoundary below) ++ filledLines rest := by
      rw [← filledLines_append, ← cut]
    rw [filledOutside_of_parts parts, below_filled, ← filledLines_eq_nil_iff]
    constructor
    · intro same
      refine ⟨plain, ?_⟩
      simpa using same
    · rintro ⟨_, none⟩
      rw [none, List.nil_append]
  · obtain ⟨blanks, boundary, rest, isBoundary, parts⟩ := parts_broken lines first isHeader plain
    rw [filledOutside_of_parts parts, filledLines_append,
      filledLines_cons (not_blank_of_boundary isBoundary)]
    constructor
    · intro same
      have length := congrArg List.length same
      simp only [List.length_append, List.length_cons] at length
      omega
    · exact fun both => absurd both.1 plain

theorem filledOutside_removed {lines : List Text} (text : source = joinLines lines)
    (single : ∀ line ∈ lines, '\n' ∉ line) :
    filledOutside source = filledLines lines ↔ ∀ line ∈ lines, isStyleHeader line = false := by
  have split : splitLines source = lines ∨ lines = [] ∧ splitLines source = [[]] := by
    cases lines with
    | nil => exact .inr ⟨rfl, by rw [text]; rfl⟩
    | cons line rest => exact .inl (by rw [text]; exact splitLines_joinLines (by simp) single)
  have blankLine : isBlankLine [] = true := by decide
  have noHeader : isStyleHeader [] = false := by decide
  have headers : (∀ line ∈ lines, isStyleHeader line = false) ↔
      ∀ line ∈ splitLines source, isStyleHeader line = false := by
    rcases split with same | ⟨rfl, empty⟩
    · rw [same]
    · rw [empty]
      simp [noHeader]
  have filled : filledLines lines = filledLines (splitLines source) := by
    rcases split with same | ⟨rfl, empty⟩
    · rw [same]
    · rw [empty]
      simp [filledLines, blankLine]
  rw [headers, filled]
  rcases Region.first?_cases source with ⟨absent, none⟩ | ⟨above, header, body, blanks, below, parts⟩
  · exact iff_of_true (filledOutside_of_none absent) none
  · refine iff_of_false ?_ ?_
    · intro same
      have solid := not_blank_of_boundary (isBoundaryLine_of_isStyleHeader parts.isHeader)
      have length := congrArg List.length same
      rw [filledOutside_of_parts parts, parts.whole, filledLines_append, filledLines_cons solid,
        filledLines_append, filledLines_append] at length
      simp only [List.length_append, List.length_cons] at length
      omega
    · intro none
      have isHeader := none header (by rw [parts.whole]; simp)
      rw [parts.isHeader] at isHeader
      cases isHeader

structure Edit.OneLine (edit : Edit) : Prop where
  blockType : '\n' ∉ edit.blockType
  target : '\n' ∉ edit.target
  property : '\n' ∉ edit.property
  value : '\n' ∉ edit.value
  label : ∀ label ∈ edit.label, '\n' ∉ label

instance : DecidablePred Edit.OneLine := fun edit =>
  decidable_of_iff ('\n' ∉ edit.blockType ∧ '\n' ∉ edit.target ∧ '\n' ∉ edit.property ∧
      '\n' ∉ edit.value ∧ ∀ label ∈ edit.label, '\n' ∉ label)
    ⟨fun ⟨blockType, target, property, value, label⟩ =>
        ⟨blockType, target, property, value, label⟩,
      fun ⟨blockType, target, property, value, label⟩ =>
        ⟨blockType, target, property, value, label⟩⟩

theorem newline_notMem_trim {t : Text} (plain : '\n' ∉ t) : '\n' ∉ trim t :=
  fun member => plain (trim_subset t member)

theorem Edit.OneLine.address (plain : edit.OneLine) : edit.address.OneLine := by
  refine ⟨newline_notMem_trim plain.blockType, newline_notMem_trim plain.target, ?_⟩
  intro label found
  simp only [Edit.address, Edit.scopeLabel] at found
  split at found
  · cases found
  · rename_i text given
    split at found
    · cases found
    · cases found
      exact newline_notMem_trim (plain.label text given)

theorem Edit.OneLine.applyTo (plain : edit.OneLine) (lines : graph.OneLine) :
    (edit.applyTo graph).OneLine :=
  lines.setProperty (fun _ => plain.address)
    fun _ => ⟨newline_notMem_trim plain.property, newline_notMem_trim plain.value⟩

theorem bodyLines_closed (plain : graph.OneLine) :
    ∀ line ∈ (graph.bodyLines indent).getLast?, isBlankLine line = false := by
  intro line last
  rw [bodyLines_of_oneLine plain] at last
  have colon := toLines_closed_by_colon line last
  cases blank : isBlankLine line with
  | false => rfl
  | true => cases isBlankLine_iff.mp blank ':' colon

-- What the written graph and the place of its block must meet: no line of the body is a boundary,
-- a block that goes is the only one, and nothing filled follows a new one before the next boundary.
def Isolated (indent : Nat) (source : Text) (graph : Graph) : Prop :=
  (∀ line ∈ graph.bodyLines indent, isBoundaryLine line = false) ∧
    match Region.first? source with
    | some _ => graph.bodyLines indent = [] → (Region.all source).tail = []
    | none => graph.bodyLines indent ≠ [] →
        ∀ line ∈ linesToBoundary ((splitLines source).drop (insertionPoint (splitLines source))),
          isBlankLine line = true

instance (indent : Nat) (source : Text) (graph : Graph) : Decidable (Isolated indent source graph) :=
  match found : Region.first? source with
  | some _ =>
    decidable_of_iff ((∀ line ∈ graph.bodyLines indent, isBoundaryLine line = false) ∧
        (graph.bodyLines indent = [] → (Region.all source).tail = []))
      (by rw [Isolated, found])
  | none =>
    decidable_of_iff ((∀ line ∈ graph.bodyLines indent, isBoundaryLine line = false) ∧
        (graph.bodyLines indent ≠ [] →
          ∀ line ∈ linesToBoundary ((splitLines source).drop (insertionPoint (splitLines source))),
            isBlankLine line = true))
      (by rw [Isolated, found])

theorem regionsFrom_eq_nil_iff {number : Nat} {lines : List Text} :
    regionsFrom number lines = [] ↔ ∀ line ∈ lines, isStyleHeader line = false := by
  refine ⟨?_, regionsFrom_eq_nil⟩
  intro none
  rcases Region.styleHeader_split lines with absent | ⟨above, header, rest, rfl, first, isHeader⟩
  · exact absent
  · rw [regionsFrom_append first, regionsFrom, if_pos isHeader] at none
    cases none

section parts

variable {header : Text} {above body blanks below : List Text}

theorem linesToBoundary_blanks
    (parts : Region.Parts (splitLines source) above header body blanks below) :
    linesToBoundary (blanks ++ below) = blanks :=
  linesToBoundary_append (fun line member => parts.plain line (List.mem_append_right _ member))
    parts.stop

theorem isolated_of_parts
    (parts : Region.Parts (splitLines source) above header body blanks below) :
    Isolated indent source graph ↔
      (∀ line ∈ graph.bodyLines indent, isBoundaryLine line = false) ∧
        (graph.bodyLines indent = [] →
          ∀ line ∈ above ++ (blanks ++ below), isStyleHeader line = false) := by
  have inBody : ∀ line ∈ body, isStyleHeader line = false := fun line member =>
    isStyleHeader_eq_false (parts.plain line (List.mem_append_left _ member))
  rw [Isolated, parts.first?, parts.all, List.tail_cons, regionsFrom_eq_nil_iff]
  refine and_congr_right fun _ => imp_congr_right fun _ => ?_
  constructor
  · intro later line member
    rcases List.mem_append.mp member with front | back
    · exact parts.first line front
    · exact later line (List.mem_append_right _ back)
  · intro others line member
    rcases List.mem_append.mp member with inside | back
    · exact inBody line inside
    · exact others line (List.mem_append_right _ back)

theorem filledOutside_of_region (plain : graph.OneLine)
    (parts : Region.Parts (splitLines source) above header body blanks below) :
    filledOutside (writeBlock indent source graph).text = filledOutside source ↔
      Isolated indent source graph := by
  have outside : filledLines (above ++ (blanks ++ below)) = filledLines above ++ filledLines below := by
    rw [filledLines_append, filledLines_append, filledLines_eq_nil_iff.mpr parts.blank,
      List.nil_append]
  rw [isolated_of_parts parts, filledOutside_of_parts parts, ← outside]
  by_cases empty : graph.bodyLines indent = []
  · have before : splitLines source = above ++ ((header :: body) ++ (blanks ++ below)) := by
      rw [parts.whole, List.cons_append]
    have text : (writeBlock indent source graph).text = joinLines (above ++ (blanks ++ below)) := by
      rw [writeBlock_of_parts parts, blockLines, if_pos empty, List.nil_append]
    have noNewline : ∀ line ∈ above ++ ([] ++ (blanks ++ below)), '\n' ∉ line :=
      newline_notMem_written before (by simp)
    rw [filledOutside_removed text noNewline]
    simp [empty]
  · have lines := splitLines_written_over parts empty
    rw [filledLines_append, filledOutside_written lines parts.first parts.isHeader
      (bodyLines_closed plain), linesToBoundary_blanks parts]
    refine and_congr_right fun _ => ?_
    exact iff_of_true parts.blank fun none => absurd none empty

end parts

theorem separator_gap (following : List Text) :
    (∀ line ∈ linesToBoundary (separator following ++ following), isBlankLine line = true) ↔
      ∀ line ∈ linesToBoundary following, isBlankLine line = true := by
  have inside : isBoundaryLine [] = false := by decide
  have blankLine : isBlankLine [] = true := by decide
  rcases separator_cases following with together | blank
  · rw [together, List.nil_append]
  · rw [blank]
    simp [linesToBoundary, inside, blankLine]

theorem isolated_of_none (absent : Region.first? source = none) :
    Isolated indent source graph ↔
      (∀ line ∈ graph.bodyLines indent, isBoundaryLine line = false) ∧
        (graph.bodyLines indent ≠ [] → ∀ line ∈ linesToBoundary
          (separator ((splitLines source).drop (insertionPoint (splitLines source))) ++
            (splitLines source).drop (insertionPoint (splitLines source))),
          isBlankLine line = true) := by
  rw [Isolated, absent, separator_gap]

theorem filledOutside_of_inserted (plain : graph.OneLine) (absent : Region.first? source = none)
    (headers : ∀ line ∈ splitLines source, isStyleHeader line = false) :
    filledOutside (writeBlock indent source graph).text = filledOutside source ↔
      Isolated indent source graph := by
  rw [isolated_of_none absent]
  by_cases empty : graph.bodyLines indent = []
  · simp [writeBlock_of_none absent, empty]
  · have lines := splitLines_written_new absent empty
    generalize insertionPoint (splitLines source) = n at lines ⊢
    have blankLine : isBlankLine [] = true := by decide
    have apart : filledLines (separator ((splitLines source).drop n) ++ (splitLines source).drop n) =
        filledLines ((splitLines source).drop n) := by
      rcases separator_cases ((splitLines source).drop n) with together | blank
      · rw [together, List.nil_append]
      · rw [blank]
        simp [filledLines, blankLine]
    have whole : filledLines (splitLines source) = filledLines ((splitLines source).take n) ++
        filledLines ((splitLines source).drop n) := by
      rw [← filledLines_append, List.take_append_drop]
    rw [filledOutside_of_none absent, whole, ← apart, filledOutside_written lines
      (fun line member => headers line (List.mem_of_mem_take member)) (by decide)
      (bodyLines_closed plain)]
    exact and_congr_right fun _ => ⟨fun blank _ => blank, fun blank => blank empty⟩

-- An edit keeps the filled lines outside the style block exactly when it changes nothing or is
-- isolated.
theorem filledOutside_patch_iff (plain : edit.OneLine)
    (accepted : Style.patch indent source (Graph.ofSource source) edit = .ok patch) :
    filledOutside patch.text = filledOutside source ↔
      (edit.Changes (Graph.ofSource source) → Isolated indent source patch.graph) := by
  have lines := plain.applyTo (oneLine_ofSource source)
  obtain ⟨_, ⟨same, rfl⟩ | ⟨changes, rfl⟩⟩ := patch_cases accepted
  · exact iff_of_true rfl fun changes => absurd changes same
  · refine Iff.trans ?_ ⟨fun isolated _ => isolated, fun isolated => isolated changes⟩
    rcases Region.first?_cases source with ⟨absent, headers⟩ |
      ⟨above, header, body, blanks, below, parts⟩
    · exact filledOutside_of_inserted lines absent headers
    · exact filledOutside_of_region lines parts

def cardColored : Patch :=
  { text := "--- use: kit\n--- style\ncore/card\n  color: red\n\n--- core/card\nHello".toList
    graph := (cardEdit "red".toList).applyTo .empty
    delta := 4
    shiftFrom := 2 }

theorem filledOutside_cardColored :
    (cardEdit "red".toList).OneLine ∧
      Style.patch 2 cardSource (Graph.ofSource cardSource) (cardEdit "red".toList) =
        .ok cardColored ∧
      (filledOutside cardColored.text = filledOutside cardSource ↔
        ((cardEdit "red".toList).Changes (Graph.ofSource cardSource) →
          Isolated 2 cardSource cardColored.graph)) ∧
      filledOutside cardColored.text = filledOutside cardSource := by
  have plain : (cardEdit "red".toList).OneLine := by decide
  have accepted : Style.patch 2 cardSource (Graph.ofSource cardSource) (cardEdit "red".toList) =
      .ok cardColored := by
    decide +kernel
  exact ⟨plain, accepted, filledOutside_patch_iff plain accepted, by decide +kernel⟩

-- In front of loose text the new block takes the text into its body, and the next edit drops it.
def helloCaptured : Patch :=
  { text := "--- style\ncore/card\n  color: red\n\nHello".toList
    graph := (cardEdit "red".toList).applyTo .empty
    delta := 4
    shiftFrom := 1 }

def helloLost : Patch := { text := [], graph := .empty, delta := -4, shiftFrom := 6 }

theorem hello_captured :
    (cardEdit "red".toList).OneLine ∧
      Style.patch defaultIndent "Hello".toList (Graph.ofSource "Hello".toList)
        (cardEdit "red".toList) = .ok helloCaptured ∧
      filledOutside helloCaptured.text ≠ filledOutside "Hello".toList ∧
      Style.patch defaultIndent helloCaptured.text (Graph.ofSource helloCaptured.text)
        (cardEdit []) = .ok helloLost :=
  ⟨by decide, by decide +kernel, by decide +kernel, by decide +kernel⟩

end BlockMarkup.Style
