import BlockMarkup.Proofs.Style.Laws
import BlockMarkup.Proofs.Style.Region

namespace BlockMarkup.Style

variable {P : Address → Text → Text → Prop} {C : Context → Prop}
variable {graph : Graph} {address : Address} {lines : List Text} {name value property t : Text}

def Graph.Shows (P : Address → Text → Text → Prop) (graph : Graph) : Prop :=
  ∀ rule ∈ graph.rules, ∀ entry ∈ rule.properties.entries, P rule.address entry.1 entry.2

theorem Graph.Shows.setProperty (shows : graph.Shows P)
    (new : value ≠ [] → P address property value) :
    (graph.setProperty address property value).Shows P := by
  intro rule member entry inside
  simp only [Graph.setProperty] at member
  split at member
  · obtain ⟨old, present, same, entries⟩ := mem_removeFrom member
    rw [same]
    exact shows old present entry (entries entry inside)
  · rename_i present
    rcases mem_putIn member with old | ⟨here, entries⟩
    · exact shows rule old entry inside
    · rw [here]
      rcases entries entry inside with rfl | ⟨old, member, same, found⟩
      · exact new present
      · exact same ▸ shows old member entry found

-- What a line adds must hold at the address of any context that it may be read under.
def StyleLine.Adds (P : Address → Text → Text → Prop) (C : Context → Prop) : StyleLine → Prop
  | .skipped | .unknown | .variable _ _ => True
  | .block blockType suffix => C (.ofSelector blockType suffix)
  | .compact selector declarations =>
    ∀ declaration ∈ compactDeclarations declarations,
      P ((compactAddress? selector).getD ⟨rawType, selector, none⟩) declaration.1 declaration.2
  | .raw selector => C (.ofRaw selector)
  | .nested indent selector => ∀ context, C context → C (context.enter indent selector)
  | .declaration property value => ∀ context, C context → P context.address property value

structure Reading.Shows (P : Address → Text → Text → Prop) (C : Context → Prop)
    (reading : Reading) : Prop where
  graph : reading.graph.Shows P
  context : ∀ context ∈ reading.context, C context

variable {reading : Reading}

theorem Reading.Shows.read (shows : reading.Shows P C) {line : StyleLine} (adds : line.Adds P C) :
    (reading.read line).Shows P C := by
  obtain ⟨ofGraph, ofContext⟩ := shows
  cases line with
  | skipped => exact ⟨ofGraph, ofContext⟩
  | unknown => exact ⟨ofGraph, ofContext⟩
  | «variable» name value => exact ⟨ofGraph, fun _ opened => by cases opened⟩
  | block blockType suffix =>
    refine ⟨ofGraph, fun _ opened => ?_⟩
    cases opened
    exact adds
  | raw selector =>
    refine ⟨ofGraph, fun _ opened => ?_⟩
    cases opened
    exact adds
  | compact selector declarations =>
    refine ⟨?_, fun _ opened => by cases opened⟩
    simp only [Reading.read]
    rw [StyleLine.Adds] at adds
    generalize compactDeclarations declarations = pairs at adds ⊢
    generalize reading.graph = graph at ofGraph ⊢
    induction pairs generalizing graph with
    | nil => exact ofGraph
    | cons pair pairs ih =>
      exact ih (fun later member => adds later (by simp [member])) _
        (ofGraph.setProperty fun _ => adds pair (by simp))
  | nested indent selector =>
    refine ⟨ofGraph, fun context found => ?_⟩
    simp only [Reading.read, Option.mem_def, Option.map_eq_some_iff] at found
    obtain ⟨before, held, rfl⟩ := found
    exact adds before (ofContext before held)
  | declaration property value =>
    simp only [Reading.read]
    split
    · exact ⟨ofGraph, ofContext⟩
    · rename_i context held
      exact ⟨ofGraph.setProperty fun _ => adds context (ofContext context held), ofContext⟩

theorem shows_foldl (adds : ∀ line ∈ lines, (StyleLine.classify line).Adds P C)
    (shows : reading.Shows P C) : (lines.foldl Reading.next reading).Shows P C := by
  induction lines generalizing reading with
  | nil => exact shows
  | cons line lines ih =>
    exact ih (fun later member => adds later (by simp [member])) (shows.read (adds line (by simp)))

theorem variable_of_classify {line : Text} (kind : StyleLine.classify line = .variable name value) :
    StyleLine.compactParts? (trim (dropReturn line)) = none ∧
      StyleLine.variableParts? (trim (dropReturn line)) = some (name, value) := by
  simp only [StyleLine.classify] at kind
  split at kind
  · cases kind
  split at kind
  · unfold StyleLine.atMargin at kind
    split at kind
    · cases kind
    rename_i noBraces
    split at kind
    · cases kind
    split at kind
    · rename_i parts
      cases kind
      exact ⟨noBraces, parts⟩
    · cases kind
  · unfold StyleLine.indented at kind
    split at kind
    · cases kind
    split at kind
    · cases kind
    · cases kind

theorem nested_of_classify {line selector : Text} {indent : Nat}
    (kind : StyleLine.classify line = .nested indent selector) :
    selector = trim (dropReturn line) ∧
      ∃ mark rest, selector = mark :: rest ∧ (mark = '.' ∨ mark = ':' ∨ mark = '>') := by
  simp only [StyleLine.classify] at kind
  split at kind
  · cases kind
  split at kind
  · unfold StyleLine.atMargin at kind
    split at kind
    · cases kind
    split at kind
    · cases kind
    split at kind
    · cases kind
    · cases kind
  · unfold StyleLine.indented at kind
    split at kind
    · rename_i marked
      cases kind
      refine ⟨rfl, ?_⟩
      obtain ⟨mark, first, isMark⟩ := (Option.any_eq_true ..).mp marked
      obtain ⟨rest, same⟩ := List.head?_eq_some_iff.mp first
      refine ⟨mark, rest, same, ?_⟩
      simpa [or_assoc] using isMark
    split at kind
    · cases kind
    · cases kind

theorem variableParts?_eq_some (found : StyleLine.variableParts? t = some (name, value)) :
    ∃ d text, t = name ++ ':' :: d :: text ∧ value = trim text ∧ value ≠ [] ∧
      IsVariableName name := by
  unfold StyleLine.variableParts? at found
  split at found
  · cases found
  rename_i c rest
  split at found
  · rename_i start
    split at found
    · rename_i d text colon
      split at found
      · rename_i passes
        obtain ⟨rfl, rfl⟩ := Prod.mk.inj (Option.some.inj found)
        simp only [Bool.and_eq_true, Bool.not_eq_true'] at passes
        refine ⟨d, text, ?_, rfl, by simpa using passes.2, c, _, rfl, start, ?_⟩
        · rw [List.cons_append, ← colon, List.takeWhile_append_dropWhile]
        · exact fun e member => List.mem_takeWhile_imp member
      · cases found
    · cases found
  · cases found

theorem exists_compactParts? (opens : '{' ∈ t) (closes : t.getLast? = some '}') :
    ∃ selector declarations, StyleLine.compactParts? t = some (selector, declarations) := by
  obtain ⟨before, after, rfl, noBrace⟩ := List.eq_append_cons_of_mem opens
  have split : splitAtFirst? '{' (before ++ '{' :: after) = some (before, after) :=
    splitAtFirst?_eq_some_iff.mpr ⟨rfl, noBrace⟩
  have last : after.getLast? = some '}' := by
    rw [List.getLast?_append_cons] at closes
    cases after with
    | nil => cases closes
    | cons c rest => simpa using closes
  have ends : EndsFilled after := by
    intro c found
    rw [last] at found
    cases found
    rfl
  simp [StyleLine.compactParts?, split, trimEnd_eq_self ends, last]

theorem compactParts?_eq_some {selector declarations : Text} (ends : EndsFilled t)
    (found : StyleLine.compactParts? t = some (selector, declarations)) :
    ∃ before body, t = before ++ '{' :: (body ++ ['}']) ∧ '{' ∉ before ∧
      selector = trim before ∧ declarations = trim body := by
  unfold StyleLine.compactParts? at found
  split at found
  · cases found
  rename_i before after split
  obtain ⟨rfl, noBrace⟩ := splitAtFirst?_eq_some_iff.mp split
  have filled : EndsFilled after := ends.of_append.of_cons
  dsimp only at found
  rw [trimEnd_eq_self filled] at found
  split at found
  · rename_i closes
    obtain ⟨body, rfl⟩ := List.getLast?_eq_some_iff.mp closes
    obtain ⟨rfl, rfl⟩ := Prod.mk.inj (Option.some.inj found)
    exact ⟨before, body, rfl, noBrace, rfl, by rw [List.dropLast_concat]⟩
  · cases found

-- A variable that is read is canonical: its line would else have been read as a one-line rule.
theorem canonical_of_variable {line : Text} (plain : '\n' ∉ line)
    (kind : StyleLine.classify line = .variable name value) : (Variable.mk name value).Canonical := by
  obtain ⟨noBraces, parts⟩ := variable_of_classify kind
  obtain ⟨d, text, content, rfl, present, named⟩ := variableParts?_eq_some parts
  have within := within_classify line
  rw [kind] at within
  refine ⟨named, ⟨present, trim_trim text, fun member => plain (within.2 member)⟩, ?_⟩
  rintro ⟨opens, closes⟩
  dsimp only [Variable.line] at opens closes
  -- The braces of the written line stand on the line that was read.
  have inContent : '{' ∈ trim (dropReturn line) := by
    rw [content]
    rcases List.mem_append.mp opens with inName | inRest
    · exact List.mem_append_left _ inName
    · have inText : '{' ∈ trim text := by simpa using inRest
      simp [mem_of_mem_trim inText]
  have ends : EndsFilled text := by
    have filled := endsFilled_trim (dropReturn line)
    rw [content] at filled
    exact filled.of_append.of_cons.of_cons
  have last : (trim (dropReturn line)).getLast? = some '}' := by
    have trimmed : trim text = trimStart text := trimEnd_eq_self ends.trimStart
    obtain ⟨blanks, cut⟩ := suffix_trimStart text
    have written : name ++ ':' :: ' ' :: trim text = (name ++ [':', ' ']) ++ trim text := by simp
    have read : name ++ ':' :: d :: text = (name ++ ':' :: d :: blanks) ++ trim text := by
      rw [trimmed, List.append_assoc, List.cons_append, List.cons_append, cut]
    rw [written, List.getLast?_append_of_ne_nil _ present] at closes
    rw [content, read, List.getLast?_append_of_ne_nil _ present, closes]
  obtain ⟨_, _, compact⟩ := exists_compactParts? inContent last
  rw [noBraces] at compact
  cases compact

theorem canonical_bindings_ofLines (plain : ∀ line ∈ lines, '\n' ∉ line) :
    ∀ found ∈ (Graph.ofLines lines).bindings, found.Canonical := by
  refine (each_ofLines (V := fun name value => (Variable.mk name value).Canonical)
    (A := fun _ => True) (E := fun _ _ => True) (C := fun _ => True) (fun _ => id) ?_).bindings
  intro line member
  cases kind : StyleLine.classify line with
  | «variable» name value => exact canonical_of_variable (plain line member) kind
  | compact selector declarations => exact ⟨trivial, fun _ _ => trivial⟩
  | nested indent selector => exact fun _ _ => trivial
  | _ => trivial

structure ReadProperty (name value : Text) : Prop where
  present : name ≠ []
  trimmed : trim name = name
  noColon : ':' ∉ name
  valued : IsValue value

theorem IsPropertyName.trimmed (valid : IsPropertyName name) :
    name ≠ [] ∧ trim name = name ∧ ':' ∉ name := by
  obtain ⟨c, rest, rfl, start, chars⟩ := valid
  have names : ∀ d ∈ c :: rest, isNameChar d = true := by
    intro d member
    rcases List.mem_cons.mp member with rfl | later
    · exact isNameChar_of_isPropertyStart start
    · exact chars d later
  refine ⟨List.cons_ne_nil _ _, trim_eq_self ?_ ?_, fun colon => ?_⟩
  · exact fun d first => isBlank_of_isNameChar (names d (List.mem_of_mem_head? first))
  · exact fun d last => isBlank_of_isNameChar (names d (List.mem_of_getLast? last))
  · exact absurd (names ':' colon) (by decide)

theorem readProperty_of_compact {declarations : Text} {declaration : Text × Text}
    (plain : '\n' ∉ declarations) (member : declaration ∈ compactDeclarations declarations) :
    ReadProperty declaration.1 declaration.2 := by
  have within := (compactDeclarations_within member).2
  obtain ⟨piece, _, kept⟩ := List.mem_filterMap.mp member
  split at kept
  · cases kept
  · rename_i before after split
    obtain ⟨_, noColon⟩ := splitAtFirst?_eq_some_iff.mp split
    split at kept
    · cases kept
    · rename_i filled
      cases kept
      simp only [Bool.or_eq_true, decide_eq_true_eq, not_or] at filled
      exact ⟨filled.1, trim_trim _, fun colon => noColon (mem_of_mem_trim colon),
        filled.2, trim_trim _, fun member => plain (within member)⟩

theorem readProperty_ofLines (plain : ∀ line ∈ lines, '\n' ∉ line) :
    ∀ rule ∈ (Graph.ofLines lines).rules, ∀ entry ∈ rule.properties.entries,
      ReadProperty entry.1 entry.2 := by
  refine (each_ofLines (V := fun _ _ => True) (A := fun _ => True) (E := ReadProperty)
    (C := fun _ => True) (fun _ => id) ?_).properties
  intro line member
  have clean := plain line member
  have form := form_classify line
  have within := within_classify line
  generalize StyleLine.classify line = kind at form within
  cases form with
  | compact parts =>
    exact ⟨trivial, fun declaration found =>
      readProperty_of_compact (fun inside => clean (within.2 inside)) found⟩
  | nested => exact fun _ _ => trivial
  | declaration parts =>
    obtain ⟨_, text, _, _, named, rfl, present⟩ := declarationParts?_eq_some parts
    obtain ⟨filled, trimmed, noColon⟩ := named.trimmed
    exact ⟨filled, trimmed, noColon, present, trim_trim _, fun inside => clean (within.2 inside)⟩
  | _ => trivial

theorem isRaw_iff {rule : Rule} : rule.isRaw = true ↔ rule.address.blockType = rawType := by
  simp [Rule.isRaw]

theorem isRaw_eq_false_iff {rule : Rule} :
    rule.isRaw = false ↔ rule.address.blockType ≠ rawType := by
  simp [Rule.isRaw]

def Context.Keeps (Q : Text → Text → Prop) : Context → Prop
  | .block blockType _ _ _ => blockType ≠ rawType
  | .raw base target => Q base target

variable {Q : Text → Text → Prop} {R : Text → Prop}

theorem Context.Keeps.enter {context : Context} {indent : Nat} {selector : Text}
    (keeps : context.Keeps Q)
    (nested : ∀ base target, Q base target →
      (selector.head? = some ':' → Q base (base ++ selector)) ∧
        (selector.head? ≠ some ':' → Q base (base ++ ' ' :: selector))) :
    (context.enter indent selector).Keeps Q := by
  cases context with
  | raw base target =>
    rw [Context.enter]
    split
    · rename_i colon
      exact (nested base target keeps).1 colon
    · rename_i colon
      exact (nested base target keeps).2 colon
  | block blockType label target opened =>
    rcases enter_block indent selector blockType target label opened with
      ⟨_, _, entered⟩ | ⟨_, _, entered⟩ | ⟨_, _, entered⟩ | entered
    all_goals
      rw [entered]
      exact keeps

theorem keeps_ofSelector {line blockType : Text} {suffix : Option Text}
    (kind : StyleLine.classify line = .block blockType suffix) :
    (Context.ofSelector blockType suffix).Keeps Q := by
  have form := form_classify line
  rw [kind] at form
  cases form with
  | block parts => exact ne_rawType (blockSelector?_eq_some parts).1

theorem target_of_compact {selector : Text}
    (raw : ((compactAddress? selector).getD ⟨rawType, selector, none⟩).blockType = rawType) :
    ((compactAddress? selector).getD ⟨rawType, selector, none⟩).target = selector := by
  cases named : compactAddress? selector with
  | some address =>
    rw [named] at raw
    exact absurd raw (ne_rawType (compactAddress?_eq_some named).1)
  | none => rfl

-- A kept selector is a line at the margin, one extended by the selectors nested under it, or the
-- selector of a one-line rule that names no block.
theorem raws_ofLines (located : ∀ base target, Q base target → R target)
    (raws : ∀ line ∈ lines, ∀ selector, StyleLine.classify line = .raw selector → Q selector selector)
    (compacts : ∀ line ∈ lines, ∀ selector declarations,
      StyleLine.classify line = .compact selector declarations → R selector)
    (nested : ∀ line ∈ lines, ∀ indent selector, StyleLine.classify line = .nested indent selector →
      ∀ base target, Q base target →
        (selector.head? = some ':' → Q base (base ++ selector)) ∧
          (selector.head? ≠ some ':' → Q base (base ++ ' ' :: selector))) :
    ∀ rule ∈ (Graph.ofLines lines).rules,
      rule.address.blockType = rawType → R rule.address.target := by
  refine (each_ofLines (V := fun _ _ => True)
    (A := fun address => address.blockType = rawType → R address.target)
    (E := fun _ _ => True) (C := Context.Keeps Q) ?_ ?_).addresses
  · intro context keeps raw
    cases context with
    | block blockType label target opened => exact absurd raw keeps
    | raw base target => exact located base target keeps
  intro line member
  cases kind : StyleLine.classify line with
  | skipped => trivial
  | unknown => trivial
  | «variable» _ _ => trivial
  | declaration _ _ => trivial
  | block blockType suffix => exact keeps_ofSelector (Q := Q) kind
  | raw selector => exact raws line member selector kind
  | compact selector declarations =>
    refine ⟨fun raw => ?_, fun _ _ => trivial⟩
    rw [target_of_compact raw]
    exact compacts line member selector declarations kind
  | nested indent selector =>
    exact fun context keeps => keeps.enter (nested line member indent selector kind)

theorem raw_of_classify {line selector : Text} (kind : StyleLine.classify line = .raw selector) :
    selector = StyleLine.rawSelector (trim (dropReturn line)) := by
  have form := form_classify line
  rw [kind] at form
  cases form
  rfl

theorem compact_of_classify {line selector declarations : Text}
    (kind : StyleLine.classify line = .compact selector declarations) :
    StyleLine.compactParts? (trim (dropReturn line)) = some (selector, declarations) := by
  have form := form_classify line
  rw [kind] at form
  cases form with
  | compact parts => exact parts

theorem endsFilled_raw_ofLines (lines : List Text) :
    ∀ rule ∈ (Graph.ofLines lines).rules,
      rule.address.blockType = rawType → EndsFilled rule.address.target := by
  refine raws_ofLines (Q := fun _ target => EndsFilled target) (fun _ _ => id) ?_ ?_ ?_
  · intro line _ selector kind
    rw [raw_of_classify kind]
    exact endsFilled_trimEnd _
  · intro line _ selector declarations kind
    obtain ⟨_, _, _, _, rfl, _⟩ := compactParts?_eq_some (endsFilled_trim _) (compact_of_classify kind)
    exact endsFilled_trim _
  · intro line _ indent selector kind base target _
    obtain ⟨same, mark, rest, shape, _⟩ := nested_of_classify kind
    have ends : EndsFilled selector := same ▸ endsFilled_trim _
    have present : selector ≠ [] := by simp [shape]
    exact ⟨fun _ => ends.append present, fun _ => by
      simpa using (ends.append present : EndsFilled ((base ++ [' ']) ++ selector))⟩

theorem endsFilled_enter {context : Context} {indent : Nat} {selector : Text}
    (ends : EndsFilled context.address.target) (filled : EndsFilled selector)
    (present : selector ≠ []) : EndsFilled (context.enter indent selector).address.target := by
  cases context with
  | raw base target =>
    rw [Context.enter]
    split
    · exact (filled.append present : EndsFilled (base ++ selector))
    · have joined : EndsFilled ((base ++ [' ']) ++ selector) := filled.append present
      simpa [Context.address] using joined
  | block blockType label target opened =>
    rcases enter_block indent selector blockType target label opened with
      ⟨rest, rfl, entered⟩ | ⟨pseudo, rfl, entered⟩ | ⟨name, rfl, entered⟩ | entered
    all_goals rw [entered]
    · exact (filled.of_cons.trimStart.cons rfl : EndsFilled ('>' :: trimStart rest))
    · exact (filled.append present :
        EndsFilled (Context.pseudoOwner indent opened ++ ':' :: pseudo))
    · exact filled.of_cons
    · exact ends

theorem endsFilled_ofSelector {content blockType : Text} {suffix : Option Text}
    (parts : blockSelector? content = some (blockType, suffix)) :
    EndsFilled (Context.ofSelector blockType suffix).address.target := by
  have root : EndsFilled selfTarget := (trim_eq_self_iff.mp (by decide)).2
  unfold Context.ofSelector suffixScope
  cases suffix with
  | none => exact root
  | some text =>
    obtain ⟨_, _, chars⟩ := (blockSelector?_eq_some parts).2.2 text rfl
    have filled : EndsFilled text := fun c last =>
      isBlank_of_isSuffixChar (chars c (List.mem_of_getLast? last))
    dsimp only
    split
    · exact ((filled.cons rfl).append (by simp) : EndsFilled (selfTarget ++ ':' :: text))
    · exact root

-- A target that ends in a blank comes from a one-line rule.
theorem endsFilled_ofLines (noCompact : ∀ line ∈ lines, ∀ selector declarations,
      StyleLine.classify line ≠ .compact selector declarations) :
    ∀ rule ∈ (Graph.ofLines lines).rules, EndsFilled rule.address.target := by
  refine (each_ofLines (V := fun _ _ => True) (A := fun address => EndsFilled address.target)
    (E := fun _ _ => True) (C := fun context => EndsFilled context.address.target)
    (fun _ => id) ?_).addresses
  intro line member
  have form := form_classify line
  cases kind : StyleLine.classify line with
  | skipped => trivial
  | unknown => trivial
  | «variable» _ _ => trivial
  | declaration _ _ => trivial
  | compact selector declarations => exact absurd kind (noCompact line member selector declarations)
  | block blockType suffix =>
    rw [kind] at form
    cases form with
    | block parts => exact endsFilled_ofSelector parts
  | raw selector =>
    rw [raw_of_classify kind]
    exact endsFilled_trimEnd _
  | nested indent selector =>
    obtain ⟨same, mark, rest, shape, _⟩ := nested_of_classify kind
    exact fun context ends =>
      endsFilled_enter ends (same ▸ endsFilled_trim _) (by simp [shape])

structure Graph.AsRead (graph : Graph) : Prop where
  distinct : graph.Distinct
  plain : graph.OneLine
  bindings : ∀ found ∈ graph.bindings, found.Canonical
  readable : ∀ rule ∈ graph.rules, rule.address.Readable
  rawEnds : ∀ rule ∈ graph.rules,
    rule.address.blockType = rawType → EndsFilled rule.address.target
  properties : ∀ rule ∈ graph.rules, ∀ entry ∈ rule.properties.entries,
    ReadProperty entry.1 entry.2

theorem asRead_ofLines (plain : ∀ line ∈ lines, '\n' ∉ line) : (Graph.ofLines lines).AsRead where
  distinct := distinct_ofLines lines
  plain := oneLine_ofLines plain
  bindings := canonical_bindings_ofLines plain
  readable := readable_ofLines lines
  rawEnds := endsFilled_raw_ofLines lines
  properties := readProperty_ofLines plain

theorem asRead_ofBody (body : Text) : (Graph.ofBody body).AsRead :=
  asRead_ofLines fun _ => newline_notMem_of_mem_splitLines

theorem asRead_ofSource (source : Text) : (Graph.ofSource source).AsRead := by
  rcases Region.first?_cases source with ⟨absent, _⟩ | ⟨above, header, body, blanks, below, parts⟩
  · have nothing : Graph.ofSource source = .ofLines [] := ofSource_of_none absent
    rw [nothing]
    exact asRead_ofLines (by simp)
  · rw [ofSource_of_parts parts]
    refine asRead_ofLines fun line member => newline_notMem_of_mem_splitLines (t := source) ?_
    rw [parts.whole]
    simp [member]

end BlockMarkup.Style
