import BlockMarkup.Naming
import BlockMarkup.Proofs.Block.Extent
import BlockMarkup.Proofs.Style.Ranges
import Mathlib.Data.List.Forall2

namespace BlockMarkup

variable {lines others : List Text} {line other source changed : Text} {number stop : Nat}

def Line.withoutValue : Line → Line
  | .property indent key _ => .property indent key []
  | kind => kind

def shape (line : Text) : Line := (Line.classify line).withoutValue

def SameShape (lines others : List Text) : Prop := lines.map shape = others.map shape

theorem classify_of_shape (same : shape line = shape other) :
    Line.classify line = Line.classify other ∨ ∃ indent key value next,
      Line.classify line = .property indent key value ∧
        Line.classify other = .property indent key next := by
  rw [shape, shape] at same
  generalize Line.classify line = kind at same ⊢
  generalize Line.classify other = otherKind at same ⊢
  cases kind <;> cases otherKind <;> simp_all [Line.withoutValue]

theorem isBoundaryLine_of_shape (same : shape line = shape other) :
    isBoundaryLine line = isBoundaryLine other := by
  rcases classify_of_shape same with equal | ⟨_, _, _, _, here, there⟩
  · rw [isBoundaryLine, isBoundaryLine, equal]
  · rw [isBoundaryLine, isBoundaryLine, here, there]
    rfl

theorem isBlankLine_of_shape (same : shape line = shape other) :
    isBlankLine line = isBlankLine other := by
  rcases classify_of_shape same with equal | ⟨_, _, _, _, here, there⟩
  · rw [isBlankLine, isBlankLine, equal]
  · simp [isBlankLine, here, there]

theorem isCandidate_of_shape (same : shape line = shape other) :
    Naming.isCandidate line = Naming.isCandidate other := by
  rcases classify_of_shape same with equal | ⟨_, _, _, _, here, there⟩
  · rw [Naming.isCandidate, Naming.isCandidate, equal]
  · rw [Naming.isCandidate, Naming.isCandidate, here, there]

-- What a property is called is all that its shape takes from the line behind the indent.
theorem property?_withoutValue (plain : '\n' ∉ t) : (Line.property? t).map Line.withoutValue =
    ((Line.takeKey? (trimStart t)).map Prod.fst).map fun key =>
      .property (t.takeWhile isBlank) key [] := by
  rw [Line.property?, ← trimStart]
  cases taken : Line.takeKey? (trimStart t) with
  | none => rfl
  | some pair =>
    obtain ⟨key, rest⟩ := pair
    have inside : trim rest ⊆ t := ((trim_sublist rest).trans
      ((suffix_of_takeKey? taken).trans (suffix_trimStart t)).sublist).subset
    dsimp only
    rw [if_neg fun member => plain (inside member)]
    rfl

theorem shape_of_plain (filled : (dropReturn line).all isBlank = false)
    (noHeader : Line.header? (dropReturn line) = none) :
    shape line = ((Line.property? (dropReturn line)).map Line.withoutValue).getD .content := by
  rw [shape, Line.classify]
  simp only [filled, noHeader, Bool.false_eq_true, ↓reduceIte]
  cases Line.property? (dropReturn line) <;> rfl

theorem sameShape_iff : SameShape lines others ↔
    List.Forall₂ (fun line other => shape line = shape other) lines others := by
  rw [SameShape, ← List.forall₂_eq_eq_eq, List.forall₂_map_left_iff, List.forall₂_map_right_iff]

theorem takeWhile_sameShape {p : Text → Bool}
    (byShape : ∀ line other, shape line = shape other → p line = p other)
    (same : SameShape lines others) : SameShape (lines.takeWhile p) (others.takeWhile p) := by
  rw [sameShape_iff] at same
  induction same with
  | nil => rfl
  | cons first _ later =>
    rw [List.takeWhile_cons, List.takeWhile_cons, byShape _ _ first]
    split
    · exact congrArg₂ List.cons first later
    · rfl

namespace SameShape

theorem length (same : SameShape lines others) : lines.length = others.length := by
  simpa using congrArg List.length same

theorem take (same : SameShape lines others) (count : Nat) :
    SameShape (lines.take count) (others.take count) := by
  rw [SameShape, List.map_take, List.map_take, same]

theorem drop (same : SameShape lines others) (count : Nat) :
    SameShape (lines.drop count) (others.drop count) := by
  rw [SameShape, List.map_drop, List.map_drop, same]

theorem reverse (same : SameShape lines others) : SameShape lines.reverse others.reverse := by
  rw [SameShape, List.map_reverse, List.map_reverse, same]

theorem getElem? (same : SameShape lines others) (index : Nat) :
    lines[index]?.map shape = others[index]?.map shape := by
  rw [← List.getElem?_map, ← List.getElem?_map, same]

theorem linesToBoundary (same : SameShape lines others) :
    SameShape (linesToBoundary lines) (linesToBoundary others) := by
  refine takeWhile_sameShape (fun line other equal => ?_) same
  rw [isBoundaryLine_of_shape equal]

theorem boundaryAfter (same : SameShape lines others) (number : Nat) :
    boundaryAfter lines number = boundaryAfter others number := by
  rw [BlockMarkup.boundaryAfter, BlockMarkup.boundaryAfter, (same.drop number).linesToBoundary.length]

theorem length_dropBlankTail (same : SameShape lines others) :
    (dropBlankTail lines).length = (dropBlankTail others).length := by
  have blanks : ∀ all : List Text,
      (dropBlankTail all).length + (all.reverse.takeWhile isBlankLine).length = all.length := by
    intro all
    rw [dropBlankTail, List.length_reverse, Nat.add_comm, ← List.length_append,
      List.takeWhile_append_dropWhile, List.length_reverse]
  have taken := (takeWhile_sameShape (p := isBlankLine) (fun _ _ => isBlankLine_of_shape)
    same.reverse).length
  have here := blanks lines
  have there := blanks others
  have whole := same.length
  omega

theorem headersFrom (same : SameShape lines others) (number : Nat) :
    headersFrom number lines = headersFrom number others := by
  rw [sameShape_iff] at same
  induction same generalizing number with
  | nil => rfl
  | cons first _ later =>
    rw [BlockMarkup.headersFrom, BlockMarkup.headersFrom, later]
    rcases classify_of_shape first with equal | ⟨_, _, _, _, here, there⟩
    · rw [equal]
    · rw [here, there]

theorem headers (same : SameShape lines others) : headers lines = headers others :=
  same.headersFrom 1

theorem headerAtOrAbove? (same : SameShape lines others) (number : Nat) :
    headerAtOrAbove? lines number = headerAtOrAbove? others number := by
  rw [BlockMarkup.headerAtOrAbove?, BlockMarkup.headerAtOrAbove?, (same.take number).headers]

theorem candidateAtOrAbove? (same : SameShape lines others) (number : Nat) :
    Naming.candidateAtOrAbove? lines number = Naming.candidateAtOrAbove? others number := by
  induction number with
  | zero => rfl
  | succ number ih =>
    have here : (lines[number]?).any Naming.isCandidate = (others[number]?).any Naming.isCandidate := by
      have there := same.getElem? number
      generalize lines[number]? = line at there
      generalize others[number]? = other at there
      match line, other with
      | none, none => rfl
      | some line, some other => exact isCandidate_of_shape (Option.some.inj there)
    rw [Naming.candidateAtOrAbove?, Naming.candidateAtOrAbove?, here, ih]

theorem warningsFrom (same : SameShape lines others) (number : Nat) (opened : List Text)
    (styleSeen : Bool) :
    warningsFrom number opened styleSeen lines = warningsFrom number opened styleSeen others := by
  rw [sameShape_iff] at same
  induction same generalizing number opened styleSeen with
  | nil => rfl
  | cons first _ later =>
    rw [BlockMarkup.warningsFrom, BlockMarkup.warningsFrom]
    rcases classify_of_shape first with equal | ⟨_, _, _, _, here, there⟩
    · simp only [equal, later]
    · rw [here, there]
      exact later _ _ _

end SameShape

theorem outline_of_sameShape (same : SameShape (splitLines source) (splitLines changed)) :
    outline source = outline changed := by
  rw [outline_eq, outline_eq, same.headers]
  refine List.map_congr_left fun header _ => ?_
  rw [Header.toEntry, Header.toEntry, same.boundaryAfter]

theorem warnings_of_sameShape (same : SameShape (splitLines source) (splitLines changed)) :
    warnings source = warnings changed :=
  same.warningsFrom 1 [] false

theorem regions_of_sameShape (same : SameShape (splitLines source) (splitLines changed)) :
    Style.Region.all source = Style.Region.all changed := by
  rw [Style.Region.all_eq, Style.Region.all_eq, Style.styleHeaders, Style.styleHeaders, same.headers]
  refine List.map_congr_left fun header _ => ?_
  rw [Header.toRegion, Header.toRegion, same.boundaryAfter,
    (same.drop header.line).linesToBoundary.length_dropBlankTail]

theorem sameShape_replaceLine (there : lineAt? lines number = some line)
    (same : shape line = shape other) : SameShape lines (replaceLine lines number other) := by
  obtain ⟨above, below, rfl, rfl⟩ := exists_cut_of_lineAt? there
  simp [SameShape, replaceLine, same]

-- A line that is not one of a cluster can be any other of its shape.
theorem clusterFrom_set {index : Nat} (same : ∀ line ∈ lines[index]?, shape line = shape other)
    (apart : ∀ found ∈ clusterFrom number lines, found.line ≠ number + index) :
    clusterFrom number (lines.set index other) = clusterFrom number lines := by
  induction lines generalizing number index with
  | nil => rfl
  | cons line rest ih =>
    cases index with
    | zero =>
      rw [List.set_cons_zero, clusterFrom, clusterFrom]
      rcases classify_of_shape (same line rfl) with equal | ⟨_, _, _, _, here, _⟩
      · rw [equal]
      · rw [clusterFrom, here] at apart
        exact absurd rfl (apart _ List.mem_cons_self)
    | succ index =>
      have next : number + (index + 1) = number + 1 + index := by omega
      rw [List.set_cons_succ, clusterFrom, clusterFrom]
      rw [clusterFrom, next] at apart
      rw [List.getElem?_cons_succ] at same
      cases kind : Line.classify line with
      | property indent key value =>
        rw [kind] at apart
        dsimp only
        rw [ih same fun found member => apart found (List.mem_cons_of_mem _ member)]
      | blank =>
        rw [kind] at apart
        exact ih same apart
      | _ => rfl

theorem propertyCluster_replaceLine {start : Nat} (there : lineAt? lines number = some line)
    (same : shape line = shape other)
    (apart : ∀ found ∈ propertyCluster lines start stop, found.line ≠ number) :
    propertyCluster (replaceLine lines number other) start stop = propertyCluster lines start stop := by
  cases number with
  | zero => cases there
  | succ index =>
    rw [propertyCluster, propertyCluster, replaceLine, Nat.add_sub_cancel, List.take_set, List.drop_set]
    split
    · rfl
    · have place : start + 1 + (index - start) = index + 1 := by omega
      refine clusterFrom_set (fun found member => ?_) (place ▸ apart)
      rw [List.getElem?_drop, Nat.add_sub_cancel' (by omega), List.getElem?_take] at member
      split at member
      · rw [lineAt?.eq_2, Option.mem_def.mp member] at there
        cases there
        exact same
      · cases member

-- Some block reads the line as one of its properties.
def InCluster (lines : List Text) (number : Nat) : Prop :=
  ∃ header stop, Heads lines header ∧ ∃ found ∈ propertyCluster lines header.line stop,
    found.line = number

theorem isOver_of_mem_propertyCluster {header : Header} {stop : Nat} {found : PropertyLine}
    (heads : Heads lines header) (member : found ∈ propertyCluster lines header.line stop) :
    IsOver lines found.line header := by
  obtain ⟨past, run, between⟩ := longestRun_propertyCluster lines header.line stop
  obtain ⟨after, before, _⟩ := (between.mem_iff found).mp member
  refine ⟨heads, Nat.le_of_lt after, fun other otherHeads upTo => Nat.le_of_not_lt fun later => ?_⟩
  obtain ⟨_, line, there, leads⟩ :=
    run.leading other.line later (Nat.lt_of_le_of_lt upTo before)
  rw [Heads, there] at otherHeads
  exact leads.not_header (Option.some.inj otherHeads)

def OutsideStyles (source : Text) (number : Nat) : Prop :=
  ∀ region ∈ Style.Region.all source, number < region.headerLine ∨ region.endLine ≤ number

theorem body_replaceLine {region : Style.Region}
    (outside : number ≤ region.headerLine ∨ region.bodyEnd ≤ number) (positive : 1 ≤ number) :
    region.body (replaceLine lines number other) = region.body lines := by
  rw [Style.Region.body, Style.Region.body, replaceLine, List.take_set]
  rcases outside with above | below
  · exact List.drop_set_of_lt (by omega)
  · rw [List.set_eq_of_length_le (by rw [List.length_take]; omega)]

theorem compileStyles_replaced (there : lineAt? (splitLines source) number = some line)
    (same : shape line = shape other)
    (replaced : splitLines changed = replaceLine (splitLines source) number other)
    (outside : OutsideStyles source number) : compileStyles changed = compileStyles source := by
  have kept : SameShape (splitLines source) (splitLines changed) :=
    replaced ▸ sameShape_replaceLine there same
  have regions := regions_of_sameShape kept
  have graph : Style.Graph.ofSource changed = Style.Graph.ofSource source := by
    rw [Style.Graph.ofSource, Style.Graph.ofSource, Style.Region.first?, Style.Region.first?, ← regions]
    cases found : Style.Region.all source with
    | nil => rfl
    | cons first others =>
      have member : first ∈ Style.Region.all source := found ▸ List.mem_cons_self
      have exact := Style.Region.exact_of_mem member
      have bounds := exact.beforeEnd
      have apart : number ≤ first.headerLine ∨ first.bodyEnd ≤ number :=
        (outside first member).imp Nat.le_of_lt bounds.trans
      rw [List.head?_cons]
      dsimp only
      rw [replaced, body_replaceLine apart (lineAt?_pos there)]
  simp only [compileStyles, warnings_of_sameShape kept, outline_of_sameShape kept, graph]

theorem locate?_replaced (there : lineAt? (splitLines source) number = some line)
    (same : shape line = shape other)
    (replaced : splitLines changed = replaceLine (splitLines source) number other)
    (unread : ¬InCluster (splitLines source) number) (cursor : Nat) :
    Block.locate? changed cursor = Block.locate? source cursor := by
  have kept : SameShape (splitLines source) (splitLines changed) :=
    replaced ▸ sameShape_replaceLine there same
  have count : lineCount changed = lineCount source := kept.length.symm
  rw [← locate?_min changed, ← locate?_min source, count, locate?_of_le (Nat.min_le_right _ _),
    locate?_of_le (count ▸ Nat.min_le_right _ _), ← kept.headerAtOrAbove?]
  refine Option.bind_congr fun header found => ?_
  have heads := (headerAtOrAbove?_eq_some_iff.mp found).heads
  rw [Block.ofHeader, Block.ofHeader, ← kept.boundaryAfter, replaced,
    propertyCluster_replaceLine there same]
  exact fun property member place => unread ⟨header, _, heads, property, member, place⟩

end BlockMarkup
