import BlockMarkup.Proofs.Checked.Block
import BlockMarkup.Proofs.Style.Reading
import BlockMarkup.Proofs.Tagging

namespace BlockMarkup

variable {lines others : List Text} {line other source changed t : Text} {number : Nat}

-- Each line is that in its place but for a carriage return at the end.
def SameButReturns : List Text → List Text → Prop :=
  List.Forall₂ fun line other => dropReturn line = dropReturn other

theorem classify_of_dropReturn (same : dropReturn line = dropReturn other) :
    Line.classify line = Line.classify other := by
  rw [Line.classify, same, ← Line.classify]

theorem styleClassify_of_dropReturn (same : dropReturn line = dropReturn other) :
    Style.StyleLine.classify line = Style.StyleLine.classify other := by
  rw [Style.StyleLine.classify, same, ← Style.StyleLine.classify]

namespace SameButReturns

theorem sameShape (same : SameButReturns lines others) : SameShape lines others := by
  apply sameShape_iff.mpr
  apply List.Forall₂.imp _ same
  intro line other dropped
  rw [shape, shape, classify_of_dropReturn dropped]

theorem take (same : SameButReturns lines others) (count : Nat) :
    SameButReturns (lines.take count) (others.take count) :=
  List.forall₂_take count same

theorem drop (same : SameButReturns lines others) (count : Nat) :
    SameButReturns (lines.drop count) (others.drop count) :=
  List.forall₂_drop count same

theorem clusterFrom (same : SameButReturns lines others) (number : Nat) :
    clusterFrom number lines = clusterFrom number others := by
  induction same generalizing number with
  | nil => rfl
  | cons first _ later =>
    rw [BlockMarkup.clusterFrom, BlockMarkup.clusterFrom, classify_of_dropReturn first, later]

theorem propertyCluster (same : SameButReturns lines others) (start stop : Nat) :
    propertyCluster lines start stop = propertyCluster others start stop :=
  ((same.take _).drop _).clusterFrom _

theorem ofHeader (same : SameButReturns lines others) (header : Header) (number : Nat) :
    Block.ofHeader lines header number = Block.ofHeader others header number := by
  rw [Block.ofHeader, Block.ofHeader, same.sameShape.boundaryAfter, same.propertyCluster]

theorem isContentOf (same : SameButReturns lines others) (header : Header) (number : Nat) :
    Naming.isContentOf lines header number = Naming.isContentOf others header number := by
  rw [Naming.isContentOf, Naming.isContentOf, same.propertyCluster, same.sameShape.length]

theorem foldl_next (same : SameButReturns lines others) (reading : Style.Reading) :
    lines.foldl Style.Reading.next reading = others.foldl Style.Reading.next reading := by
  induction same generalizing reading with
  | nil => rfl
  | cons first _ later =>
    rw [List.foldl_cons, List.foldl_cons, Style.Reading.next, Style.Reading.next,
      styleClassify_of_dropReturn first]
    exact later _

theorem ofLines (same : SameButReturns lines others) :
    Style.Graph.ofLines lines = Style.Graph.ofLines others := by
  rw [Style.Graph.ofLines, Style.Graph.ofLines, same.foldl_next]

theorem locate? (same : SameButReturns (splitLines source) (splitLines changed)) (cursor : Nat) :
    Block.locate? source cursor = Block.locate? changed cursor := by
  have count : lineCount source = lineCount changed := same.sameShape.length
  rw [← locate?_min source, ← locate?_min changed, count, locate?_of_le (Nat.min_le_right _ _),
    locate?_of_le (count ▸ Nat.min_le_right _ _), same.sameShape.headerAtOrAbove?]
  refine Option.bind_congr fun header _ => ?_
  rw [same.ofHeader]

theorem ofSource (same : SameButReturns (splitLines source) (splitLines changed)) :
    Style.Graph.ofSource source = Style.Graph.ofSource changed := by
  rw [Style.Graph.ofSource, Style.Graph.ofSource, Style.Region.first?, Style.Region.first?,
    regions_of_sameShape same.sameShape]
  cases (Style.Region.all changed).head? with
  | none => rfl
  | some region =>
    dsimp only
    rw [Style.Region.body, Style.Region.body]
    exact ((same.take _).drop _).ofLines

theorem compileStyles (same : SameButReturns (splitLines source) (splitLines changed)) :
    compileStyles source = compileStyles changed := by
  simp only [BlockMarkup.compileStyles, warnings_of_sameShape same.sameShape,
    outline_of_sameShape same.sameShape, same.ofSource]

end SameButReturns

def withReturns (t : Text) : Text := t.flatMap fun c => if c = '\n' then ['\r', '\n'] else [c]

def ending : List Text → Text
  | [] => []
  | _ :: _ => ['\r']

def returned : List Text → List Text
  | [] => []
  | line :: rest => (line ++ ending rest) :: returned rest

theorem withReturns_cons (c : Char) (rest : Text) :
    withReturns (c :: rest) =
      if c = '\n' then '\r' :: '\n' :: withReturns rest else c :: withReturns rest := by
  rw [withReturns, List.flatMap_cons]
  split <;> rfl

theorem withReturns_append (front back : Text) :
    withReturns (front ++ back) = withReturns front ++ withReturns back :=
  List.flatMap_append

theorem withReturns_of_plain (plain : '\n' ∉ t) : withReturns t = t := by
  induction t with
  | nil => rfl
  | cons c rest ih =>
    obtain ⟨other, later⟩ := not_or.mp (mt List.mem_cons.mpr plain)
    rw [withReturns_cons, if_neg (Ne.symm other), ih later]

theorem joinLines_returned (plain : ∀ line ∈ lines, '\n' ∉ line) :
    joinLines (returned lines) = withReturns (joinLines lines) := by
  induction lines with
  | nil => rfl
  | cons line rest ih =>
    have here := withReturns_of_plain (plain line List.mem_cons_self)
    have later := ih fun other member => plain other (List.mem_cons_of_mem _ member)
    cases rest with
    | nil => simp [returned, ending, joinLines, here]
    | cons next more =>
      have present : returned (next :: more) ≠ [] := List.cons_ne_nil _ _
      rw [returned, joinLines_cons present, later, joinLines_cons (List.cons_ne_nil _ _),
        withReturns_append, here, withReturns_cons, if_pos rfl, ending, List.append_assoc]
      rfl

theorem newline_notMem_ending (below : List Text) : '\n' ∉ ending below := by
  cases below with
  | nil => exact List.not_mem_nil
  | cons _ _ => simp [ending]

theorem newline_notMem_returned (plain : ∀ line ∈ lines, '\n' ∉ line) :
    ∀ line ∈ returned lines, '\n' ∉ line := by
  induction lines with
  | nil => exact plain
  | cons line rest ih =>
    intro other member
    rcases List.mem_cons.mp member with rfl | later
    · exact fun inside => (List.mem_append.mp inside).elim (plain line List.mem_cons_self)
        (newline_notMem_ending rest)
    · exact ih (fun found inside => plain found (List.mem_cons_of_mem _ inside)) other later

theorem splitLines_withReturns (t : Text) : splitLines (withReturns t) = returned (splitLines t) := by
  have plain : ∀ line ∈ splitLines t, '\n' ∉ line := fun _ => newline_notMem_of_mem_splitLines
  have present : returned (splitLines t) ≠ [] := by
    obtain ⟨first, rest, cut⟩ := List.exists_cons_of_ne_nil (List.splitOn_ne_nil '\n' t)
    rw [splitLines, cut]
    exact List.cons_ne_nil _ _
  rw [← splitLines_joinLines present (newline_notMem_returned plain), joinLines_returned plain,
    joinLines_splitLines]

theorem return_notMem_of_mem_splitLines (noReturn : '\r' ∉ t) (member : line ∈ splitLines t) :
    '\r' ∉ line :=
  fun inside => noReturn ((Style.sublist_of_mem_splitOn member).subset inside)

theorem dropReturn_of_notMem (noReturn : '\r' ∉ line) : dropReturn line = line :=
  if_neg fun last => noReturn (List.mem_of_getLast? last)

theorem finalReturn_of_notMem (noReturn : '\r' ∉ line) : finalReturn line = [] :=
  if_neg fun last => noReturn (List.mem_of_getLast? last)

theorem returns_ending (noReturn : '\r' ∉ line) (below : List Text) :
    dropReturn (line ++ ending below) = line ∧ finalReturn (line ++ ending below) = ending below := by
  cases below with
  | nil =>
    rw [ending, List.append_nil]
    exact ⟨dropReturn_of_notMem noReturn, finalReturn_of_notMem noReturn⟩
  | cons _ _ => simp [ending, dropReturn, finalReturn]

theorem sameButReturns_withReturns (noReturn : '\r' ∉ t) :
    SameButReturns (splitLines (withReturns t)) (splitLines t) := by
  have plain : ∀ line ∈ splitLines t, '\r' ∉ line := fun _ => return_notMem_of_mem_splitLines noReturn
  rw [splitLines_withReturns]
  generalize splitLines t = lines at plain ⊢
  induction lines with
  | nil => exact .nil
  | cons line rest ih =>
    have here := plain line List.mem_cons_self
    apply List.Forall₂.cons
    · rw [(returns_ending here rest).1, dropReturn_of_notMem here]
    · exact ih fun other member => plain other (List.mem_cons_of_mem _ member)

namespace Identifier

-- Digits end before a line feed, and before the carriage return that is put there. Neither of them
-- continues a word.
theorem leadingNumber?_withReturns (t : Text) :
    leadingNumber? (withReturns t) = leadingNumber? t := by
  have same : (withReturns t).takeWhile isDecimal = t.takeWhile isDecimal ∧
      ((withReturns t).dropWhile isDecimal).head?.any isWord =
        (t.dropWhile isDecimal).head?.any isWord := by
    induction t with
    | nil => exact ⟨rfl, rfl⟩
    | cons c rest ih =>
      by_cases feed : c = '\n'
      · rw [feed]
        exact ⟨rfl, rfl⟩
      · rw [withReturns_cons, if_neg feed]
        cases digit : isDecimal c with
        | true =>
          simpa only [List.takeWhile_cons, List.dropWhile_cons, digit, if_true, List.cons.injEq, true_and]
        | false => simp [digit]
  rw [leadingNumber?, leadingNumber?, same.1, same.2]

theorem numbersFrom_withReturns (before : Option Char) (t : Text) :
    numbersFrom before (withReturns t) = numbersFrom before t := by
  induction t generalizing before with
  | nil => rfl
  | cons c rest ih =>
    by_cases feed : c = '\n'
    · rw [feed]
      exact ih (some '\n')
    · have here : numberAt? before (c :: withReturns rest) = numberAt? before (c :: rest) := by
        by_cases start : c = 's'
        · rw [start, numberAt?, numberAt?, leadingNumber?_withReturns]
        · simp [numberAt?, start]
      rw [withReturns_cons, if_neg feed, numbersFrom, numbersFrom, here, ih]

theorem next_withReturns (t : Text) : next (withReturns t) = next t := by
  have same : numbers (withReturns t) = numbers t := numbersFrom_withReturns none t
  rw [next, next, nextNumber, nextNumber, max?, max?, same]

end Identifier

theorem returned_cut (above below : List Text) (line : Text) :
    returned (above ++ line :: below) =
      above.map (· ++ ['\r']) ++ (line ++ ending below) :: returned below := by
  induction above with
  | nil => rfl
  | cons first rest ih =>
    have follows : ending (rest ++ line :: below) = ['\r'] := by cases rest <;> rfl
    rw [List.cons_append, returned, ih, follows]
    rfl

theorem writeLine_withReturns (noReturn : '\r' ∉ t) (there : lineAt? (splitLines t) number = some line) :
    ∃ found, lineAt? (splitLines (withReturns t)) number = some found ∧
      dropReturn found = dropReturn line ∧ ∀ other, '\n' ∉ other →
        joinLines (replaceLine (splitLines (withReturns t)) number (other ++ finalReturn found)) =
          withReturns (joinLines (replaceLine (splitLines t) number (other ++ finalReturn line))) := by
  obtain ⟨above, below, cut, rfl⟩ := exists_cut_of_lineAt? there
  have noReturn : '\r' ∉ line := return_notMem_of_mem_splitLines noReturn (by simp [cut])
  obtain ⟨dropped, kept⟩ := returns_ending noReturn below
  have lines : splitLines (withReturns t) =
      above.map (· ++ ['\r']) ++ (line ++ ending below) :: returned below := by
    rw [splitLines_withReturns, cut, returned_cut]
  refine ⟨line ++ ending below, ?_, ?_, fun other plain => ?_⟩
  · simp [lines, lineAt?]
  · rw [dropped, dropReturn_of_notMem noReturn]
  · have written : replaceLine (splitLines t) (above.length + 1) other = above ++ other :: below := by
      simp [cut, replaceLine]
    rw [kept, finalReturn_of_notMem noReturn, List.append_nil, written, ← joinLines_returned,
      returned_cut]
    · simp [lines, replaceLine]
    · intro found inside
      rcases List.mem_append.mp inside with front | back
      · exact newline_notMem_of_mem_splitLines (t := t) (by simp [cut, front])
      · rcases List.mem_cons.mp back with rfl | back
        · exact plain
        · exact newline_notMem_of_mem_splitLines (t := t) (by simp [cut, back])

theorem newline_notMem_dropReturn (there : lineAt? (splitLines t) number = some line) :
    '\n' ∉ dropReturn line := by
  have replaced : LineReplaced t _ number line [] := ⟨there, rfl⟩
  exact replaced.newline_notMem.1

theorem lineAt?_withReturns_of_none (noReturn : '\r' ∉ t)
    (none : lineAt? (splitLines t) number = none) :
    lineAt? (splitLines (withReturns t)) number = .none := by
  have count := (sameButReturns_withReturns noReturn).length_eq
  rw [← Option.not_isSome_iff_eq_none, Option.isSome_iff_exists, exists_lineAt?_iff] at none ⊢
  rwa [count]

namespace Naming

theorem injectLabel?_withReturns (noReturn : '\r' ∉ t) (number : Nat) {label : Text}
    (plain : '\n' ∉ label) :
    injectLabel? (withReturns t) number label = (injectLabel? t number label).map withReturns := by
  rw [injectLabel?, injectLabel?]
  cases there : lineAt? (splitLines t) number with
  | none =>
    rw [lineAt?_withReturns_of_none noReturn there]
    rfl
  | some old =>
    obtain ⟨found, here, dropped, written⟩ := writeLine_withReturns noReturn there
    have oneLine := newline_notMem_dropReturn there
    have labelled : '\n' ∉ trimEnd (dropReturn old) ++ ':' :: ' ' :: label := by
      have inTrimmed := mt (fun member => (prefix_trimEnd (dropReturn old)).subset member) oneLine
      simp [inTrimmed, plain]
    rw [here]
    dsimp only
    rw [classify_of_dropReturn dropped, dropped, written _ labelled]
    cases Line.classify old with
    | header blockType given =>
      cases given with
      | none =>
        dsimp only
        split <;> rfl
      | some given => rfl
    | _ => rfl

theorem injectClass?_withReturns (noReturn : '\r' ∉ t) (number : Nat) {name : Text}
    (isName : Identifier.isIdentifier name = true) :
    injectClass? (withReturns t) number name = (injectClass? t number name).map withReturns := by
  have same := sameButReturns_withReturns noReturn
  rw [injectClass?, injectClass?]
  dsimp only
  rw [same.sameShape.length, same.sameShape.candidateAtOrAbove?]
  cases candidate : candidateAtOrAbove? (splitLines t) (min number (splitLines t).length) with
  | none => rfl
  | some taken =>
    obtain ⟨_, old, there, _⟩ := candidateAtOrAbove?_eq_some candidate
    obtain ⟨found, here, dropped, written⟩ := writeLine_withReturns noReturn there
    have content : (headerAtOrAbove? (splitLines (withReturns t)) taken).all (fun header =>
          isContentOf (splitLines (withReturns t)) header taken) =
        (headerAtOrAbove? (splitLines t) taken).all fun header =>
          isContentOf (splitLines t) header taken := by
      rw [same.sameShape.headerAtOrAbove?]
      simp only [same.isContentOf]
    dsimp only
    rw [content, here, there, Option.getD_some, Option.getD_some, dropped]
    split
    · cases annotates : annotate? (dropReturn old) name with
      | none => rfl
      | some annotated =>
        have oneLine := newline_notMem_annotate? isName (newline_notMem_dropReturn there) annotates
        rw [Option.map_some, Option.map_some, Option.map_some, written _ oneLine]
    · rfl

end Naming

theorem length_le_length_withReturns (t : Text) : t.length ≤ (withReturns t).length := by
  induction t with
  | nil => exact Nat.le_refl _
  | cons c rest ih =>
    rw [withReturns_cons]
    split
    · exact Nat.le_succ_of_le (Nat.succ_le_succ ih)
    · exact Nat.succ_le_succ ih

theorem locate_withReturns (noReturn : '\r' ∉ t) (fits : Checked.Fits (withReturns t))
    (cursor : UInt64) : Checked.locate (withReturns t) cursor = Checked.locate t cursor := by
  have same := sameButReturns_withReturns noReturn
  exact Checked.locate_congr (Nat.lt_of_le_of_lt (length_le_length_withReturns t) fits) fits
    same.sameShape.length same.locate? cursor

-- A document reads the same with carriage returns before its line feeds: the blocks, the style blocks, the
-- style rules, all that is compiled and the next identifier. A label and a class are given in one
-- convention when they are given in the other, and the new texts differ in the carriage returns only.
theorem reads_withReturns (noReturn : '\r' ∉ t) :
    (∀ cursor, Block.locate? (withReturns t) cursor = Block.locate? t cursor) ∧
      (Checked.Fits (withReturns t) →
        ∀ cursor : UInt64, Checked.locate (withReturns t) cursor = Checked.locate t cursor) ∧
      Style.Region.all (withReturns t) = Style.Region.all t ∧
      Style.Graph.ofSource (withReturns t) = Style.Graph.ofSource t ∧
      compileStyles (withReturns t) = compileStyles t ∧
      Identifier.next (withReturns t) = Identifier.next t ∧
      ∀ number name, Identifier.isIdentifier name = true →
        Naming.injectLabel? (withReturns t) number name =
            (Naming.injectLabel? t number name).map withReturns ∧
          Naming.injectClass? (withReturns t) number name =
            (Naming.injectClass? t number name).map withReturns := by
  have same := sameButReturns_withReturns noReturn
  refine ⟨same.locate?, locate_withReturns noReturn, regions_of_sameShape same.sameShape, same.ofSource,
    same.compileStyles, Identifier.next_withReturns t, fun number name isName => ⟨?_, ?_⟩⟩
  · apply Naming.injectLabel?_withReturns noReturn
    exact Identifier.notMem_of_isIdentifier isName (by decide)
  · exact Naming.injectClass?_withReturns noReturn number isName

def taggedCard : Text :=
  "--- core/card\nsize: 2\n<p class=\"lead\">Hi</p>\n--- style\ncore/card\n  color: red\n".toList

theorem reads_withReturns_taggedCard :
    '\r' ∉ taggedCard ∧
      (Block.locate? (withReturns taggedCard) 3).map (fun block => block.properties.entries) =
        some [("size".toList, "2".toList)] ∧
      Style.Graph.ofSource (withReturns taggedCard) =
        ⟨[], [⟨⟨"core/card".toList, Style.selfTarget, none⟩,
          Properties.empty.insert "color".toList "red".toList⟩]⟩ ∧
      Naming.injectLabel? (withReturns taggedCard) 1 "s1".toList =
        some ("--- core/card: s1\r\nsize: 2\r\n<p class=\"lead\">Hi</p>\r\n" ++
          "--- style\r\ncore/card\r\n  color: red\r\n").toList ∧
      Naming.injectClass? (withReturns taggedCard) 3 "s1".toList =
        some ("--- core/card\r\nsize: 2\r\n<p class=\"lead s1\">Hi</p>\r\n" ++
          "--- style\r\ncore/card\r\n  color: red\r\n").toList := by
  have noReturn : '\r' ∉ taggedCard := by decide
  obtain ⟨located, _, _, graph, _, _, named⟩ := reads_withReturns noReturn
  have isName : Identifier.isIdentifier "s1".toList = true := by decide
  refine ⟨noReturn, ?_, ?_, ?_, ?_⟩
  · rw [located]
    decide +kernel
  · rw [graph]
    decide +kernel
  · rw [(named 1 _ isName).1]
    decide +kernel
  · rw [(named 3 _ isName).2]
    decide +kernel

end BlockMarkup
