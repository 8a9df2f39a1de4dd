import BlockMarkup.Proofs.Structure
import BlockMarkup.Proofs.Style.ReadBack
import BlockMarkup.Proofs.Style.ReadGraph

namespace BlockMarkup.Style

variable {n : Nat} {source : Text} {graph : Graph} {edit : Edit} {patch : Patch}
variable {line t : Text} {lines above inside below : List Text}

def isMark (line : Text) : Bool :=
  match Line.classify line with
  | .header blockType _ => blockType ≠ styleType
  | .close _ => true
  | _ => false

def blockNames (lines : List Text) : List (Text × Option Text) :=
  (openings lines).filter fun name => name.1 ≠ styleType

def Unmarked (marks : Text → Bool) (lines : List Text) : Prop := ∀ line ∈ lines, marks line = false

instance (marks : Text → Bool) : DecidablePred (Unmarked marks) := fun lines =>
  inferInstanceAs (Decidable (∀ line ∈ lines, marks line = false))

theorem isBoundaryLine_of_isMark (marked : isMark line = true) : isBoundaryLine line = true := by
  unfold isMark at marked
  split at marked
  · rename_i kind
    simp [isBoundaryLine, kind, Line.isBoundary]
  · rename_i kind
    simp [isBoundaryLine, kind, Line.isBoundary]
  · cases marked

theorem blockNames_append (front back : List Text) :
    blockNames (front ++ back) = blockNames front ++ blockNames back := by
  rw [blockNames, openings_append, List.filter_append, blockNames, blockNames]

theorem unmarked_append {marks : Text → Bool} {front back : List Text} :
    Unmarked marks (front ++ back) ↔ Unmarked marks front ∧ Unmarked marks back :=
  List.forall_mem_append

theorem unmarked_iff : Unmarked isMark lines ↔ blockNames lines = [] ∧ closings lines = [] := by
  induction lines with
  | nil => simp [Unmarked, blockNames, openings, closings]
  | cons line rest ih =>
    rw [Unmarked, List.forall_mem_cons, ← Unmarked, ih, ← List.singleton_append, blockNames_append,
      closings_append, List.append_eq_nil_iff, List.append_eq_nil_iff]
    have here : isMark line = false ↔ blockNames [line] = [] ∧ closings [line] = [] := by
      simp only [isMark, blockNames, openings, closings, List.filterMap_cons, List.filterMap_nil]
      cases Line.classify line <;> simp [Line.opened?, Line.closed?]
    rw [here]
    tauto

theorem structure_between_iff (above below : List Text) (unmarked : Unmarked isMark inside)
    (new : List Text) :
    (blockNames (above ++ (new ++ below)) = blockNames (above ++ (inside ++ below)) ∧
        closings (above ++ (new ++ below)) = closings (above ++ (inside ++ below))) ↔
      Unmarked isMark new := by
  obtain ⟨names, tags⟩ := unmarked_iff.mp unmarked
  rw [unmarked_iff]
  simp [blockNames_append, closings_append, names, tags]

theorem structure_joinLines (plain : ∀ line ∈ lines, '\n' ∉ line) :
    blockNames (splitLines (joinLines lines)) = blockNames lines ∧
      closings (splitLines (joinLines lines)) = closings lines := by
  by_cases present : lines = []
  · rw [present]
    exact ⟨rfl, rfl⟩
  · rw [splitLines_joinLines present plain]
    exact ⟨rfl, rfl⟩

theorem isMark_of_isStyleHeader (isHeader : isStyleHeader line = true) : isMark line = false := by
  obtain ⟨label, kind⟩ := classify_of_isStyleHeader isHeader
  simp [isMark, kind]

theorem unmarked_of_plain (plain : ∀ line ∈ lines, isBoundaryLine line = false) :
    Unmarked isMark lines := by
  intro line member
  cases marked : isMark line with
  | false => rfl
  | true =>
    rw [← plain line member]
    exact (isBoundaryLine_of_isMark marked).symm

theorem unmarked_blockLines (isHeader : isStyleHeader line = true) (body : List Text) :
    Unmarked isMark (blockLines line body) ↔ Unmarked isMark body := by
  rw [blockLines]
  split
  · rename_i empty
    rw [empty]
  · rw [Unmarked, List.forall_mem_cons]
    exact and_iff_right (isMark_of_isStyleHeader isHeader)

theorem unmarked_separator (following : List Text) : Unmarked isMark (separator following) := by
  rcases separator_cases following with together | blank
  · simp [together, Unmarked]
  · intro line member
    rw [blank, List.mem_singleton] at member
    rw [member]
    rfl

theorem structure_writeBlock_iff (n : Nat) (source : Text) (graph : Graph) :
    (blockNames (splitLines (writeBlock n source graph).text) = blockNames (splitLines source) ∧
        closings (splitLines (writeBlock n source graph).text) = closings (splitLines source)) ↔
      Unmarked isMark (graph.bodyLines n) := by
  rcases Region.first?_cases source with ⟨absent, _⟩ | ⟨above, header, body, blanks, below, parts⟩
  · rw [writeBlock_of_none absent]
    split
    · rename_i empty
      simp [empty, Unmarked]
    · generalize insertionPoint (splitLines source) = point
      have before : splitLines source =
          (splitLines source).take point ++ ([] ++ (splitLines source).drop point) := by simp
      have added : ∀ line ∈ blockLines styleHeader (graph.bodyLines n) ++
          separator ((splitLines source).drop point), '\n' ∉ line := newline_notMem_newBlock _
      obtain ⟨names, tags⟩ := structure_joinLines (newline_notMem_written before added)
      dsimp only
      rw [← List.append_assoc (blockLines _ _), names, tags]
      have nothing : Unmarked isMark [] := by simp [Unmarked]
      have between := structure_between_iff ((splitLines source).take point)
        ((splitLines source).drop point) nothing
        (blockLines styleHeader (graph.bodyLines n) ++ separator ((splitLines source).drop point))
      rw [← before] at between
      rw [between, unmarked_append, unmarked_blockLines (by decide)]
      exact and_iff_left (unmarked_separator _)
  · have before : splitLines source = above ++ ((header :: body) ++ (blanks ++ below)) := by
      rw [parts.whole, List.cons_append]
    have header_plain : '\n' ∉ header :=
      newline_notMem_of_mem_splitLines (t := source) (by rw [parts.whole]; simp)
    have added : ∀ line ∈ blockLines header (graph.bodyLines n), '\n' ∉ line :=
      newline_notMem_blockLines header_plain
    obtain ⟨names, tags⟩ := structure_joinLines (newline_notMem_written before added)
    have old : Unmarked isMark (header :: body) := by
      refine List.forall_mem_cons.mpr ⟨isMark_of_isStyleHeader parts.isHeader, ?_⟩
      exact unmarked_of_plain fun line member => parts.plain line (List.mem_append_left _ member)
    rw [writeBlock_of_parts parts, names, tags, before, structure_between_iff _ _ old,
      unmarked_blockLines parts.isHeader]

theorem unmarked_bodyLines_iff {marks : Text → Bool} :
    Unmarked marks (graph.bodyLines n) ↔
      ∀ piece ∈ graph.toLines n, Unmarked marks (splitLines piece) := by
  have lines : graph.bodyLines n = (graph.toLines n).flatMap splitLines := by
    rw [Graph.bodyLines]
    split
    · rename_i empty
      rw [toBody_eq_nil_iff.mp empty]
      rfl
    · rename_i present
      exact splitLines_joinLines_eq_flatMap (mt toBody_eq_nil_iff.mpr present)
  rw [lines]
  exact List.forall_mem_flatMap

theorem mem_group_of_rule {rule : Rule} (member : rule ∈ graph.rules) (grouped : rule.isRaw = false)
    (filled : rule.properties.entries ≠ []) :
    rule ∈ graph.groupedRules.filter fun other => other.scope = rule.scope := by
  simp [Graph.groupedRules, Properties.isEmpty, member, grouped, filled]

theorem mem_toLines_of_group {rule : Rule} (member : rule ∈ graph.rules)
    (grouped : rule.isRaw = false) (inGroup : line ∈ graph.groupLines n rule.scope) :
    line ∈ graph.toLines n := by
  have scope : rule.scope ∈ graph.scopes := by
    rw [Graph.scopes, List.mem_eraseDups]
    exact List.mem_map.mpr ⟨rule, by simp [member, grouped], rfl⟩
  refine List.mem_append_left _ (List.mem_append_right _ ?_)
  exact List.mem_flatMap.mpr ⟨rule.scope, scope, inGroup⟩

theorem written_of_block {rule : Rule} (member : rule ∈ graph.rules) (grouped : rule.isRaw = false)
    (filled : rule.properties.entries ≠ []) :
    rule.scope.selector ∈ graph.toLines n ∧
      (rule.address.target ≠ selfTarget → spaces n ++ rule.target.selector ∈ graph.toLines n) ∧
      ∀ entry ∈ rule.properties.entries, ∃ width, (width = n ∨ width = n * 2) ∧
        spaces width ++ entry.1 ++ ':' :: ' ' :: entry.2 ∈ graph.toLines n := by
  have inGroup := mem_group_of_rule member grouped filled
  have present : (graph.groupedRules.filter fun other => other.scope = rule.scope).isEmpty = false := by
    rw [← Bool.not_eq_true, List.isEmpty_iff]
    exact List.ne_nil_of_mem inGroup
  have written : ∀ line, line ∈ graph.groupLines n rule.scope → line ∈ graph.toLines n :=
    fun line => mem_toLines_of_group member grouped
  simp only [Graph.groupLines, present, Bool.false_eq_true, ↓reduceIte] at written
  refine ⟨written _ (by simp), fun other => written _ ?_, fun entry inside => ?_⟩
  · have isOther : rule.target ≠ .root := mt of_eq_root_iff.mp other
    refine List.mem_cons_of_mem _ (List.mem_append_right _ (List.mem_flatMap.mpr ⟨rule, ?_, ?_⟩))
    · exact List.mem_filter.mpr ⟨inGroup, by simpa using isOther⟩
    · simp [targetLines]
  · by_cases root : rule.target = .root
    · refine ⟨n, .inl rfl, written _ (List.mem_cons_of_mem _ (List.mem_append_left _ ?_))⟩
      refine List.mem_flatMap.mpr ⟨rule, List.mem_filter.mpr ⟨inGroup, by simpa using root⟩, ?_⟩
      exact List.mem_map.mpr ⟨entry, inside, rfl⟩
    · refine ⟨n * 2, .inr rfl, written _ (List.mem_cons_of_mem _ (List.mem_append_right _ ?_))⟩
      refine List.mem_flatMap.mpr ⟨rule, List.mem_filter.mpr ⟨inGroup, by simpa using root⟩, ?_⟩
      exact List.mem_cons_of_mem _ (List.mem_map.mpr ⟨entry, inside, rfl⟩)

theorem written_of_raw {rule : Rule} (member : rule ∈ graph.rules) (kept : rule.isRaw = true)
    (filled : rule.properties.entries ≠ []) :
    rule.address.target ∈ graph.toLines n ∧
      ∀ entry ∈ rule.properties.entries,
        spaces n ++ entry.1 ++ ':' :: ' ' :: entry.2 ∈ graph.toLines n := by
  have raw : rule ∈ graph.rawRules := by
    simp [Graph.rawRules, Properties.isEmpty, member, kept, filled]
  have written : ∀ line ∈ rule.address.target :: propertyLines (spaces n) rule,
      line ∈ graph.toLines n := fun line inside =>
    List.mem_append_right _ (List.mem_flatMap.mpr ⟨rule, raw, inside⟩)
  refine ⟨written _ (by simp), fun entry inside => written _ ?_⟩
  exact List.mem_cons_of_mem _ (List.mem_map.mpr ⟨entry, inside, rfl⟩)

theorem isBoundaryLine_binding {found : Variable} (canonical : found.Canonical) :
    isBoundaryLine found.line = false := by
  obtain ⟨c, rest, name, start, chars⟩ := canonical.named
  have solid : ∀ d ∈ found.name, isBlank d = false := by
    intro d member
    rw [name] at member
    have allowed : StyleLine.isVariableChar d = true := by
      rcases List.mem_cons.mp member with rfl | later
      · exact isVariableChar_of_isVariableStart start
      · exact chars d later
    simp only [StyleLine.isVariableChar, Bool.or_eq_true, beq_iff_eq] at allowed
    rcases allowed with (word | rfl) | rfl
    · exact isBlank_of_isWord word
    all_goals rfl
  have ends : EndsFilled found.line := pair_ends canonical.valued
  apply isBoundaryLine_of_header?_eq_none
  rw [dropReturn_eq_self ends]
  exact header?_of_word solid _

theorem isBoundaryLine_scope {scope : Scope} (valid : isBlockType scope.blockType = true) :
    isBoundaryLine scope.selector = false := by
  obtain ⟨c, rest, type, letter⟩ := isBlockType_cons valid
  have noDash : c ≠ '-' := by
    rintro rfl
    cases letter
  apply isBoundaryLine_eq_false
  unfold Scope.selector
  split <;> simpa [type] using noDash

theorem tail_splitLines_selector {target : Text} (other : target ≠ selfTarget) :
    (splitLines (Target.of target).selector).tail = (splitLines target).tail := by
  rcases selector_forms target other with ⟨rest, rfl, shown⟩ | ⟨pseudo, rfl, shown⟩ | ⟨_, shown⟩
  · rw [shown]
  · rw [shown, tail_splitLines_append newline_notMem_selfTarget]
  · rw [shown, ← List.singleton_append, tail_splitLines_append (by decide)]

section marks

variable {marks : Text → Bool}

-- On their own lines the strings of an edit have no marks. The first line of a target and of a
-- property is indented, and the target of a kept selector is that of a rule.
structure Edit.Unmarked (marks : Text → Bool) (edit : Edit) : Prop where
  scope : edit.address.blockType ≠ rawType →
    Style.Unmarked marks (splitLines (Scope.mk edit.address.blockType edit.address.label).selector)
  target : edit.address.blockType ≠ rawType →
    Style.Unmarked marks (splitLines edit.address.target).tail
  property :
    Style.Unmarked marks (splitLines (trim edit.property ++ ':' :: ' ' :: trim edit.value)).tail

instance (marks : Text → Bool) : DecidablePred (Edit.Unmarked marks) := fun edit =>
  decidable_of_iff
    ((edit.address.blockType ≠ rawType →
        Style.Unmarked marks (splitLines (Scope.mk edit.address.blockType edit.address.label).selector) ∧
          Style.Unmarked marks (splitLines edit.address.target).tail) ∧
      Style.Unmarked marks (splitLines (trim edit.property ++ ':' :: ' ' :: trim edit.value)).tail)
    ⟨fun ⟨block, property⟩ => ⟨fun other => (block other).1, fun other => (block other).2, property⟩,
      fun ⟨scope, target, property⟩ => ⟨fun other => ⟨scope other, target other⟩, property⟩⟩

theorem unmarked_of_line (boundaries : ∀ line, marks line = true → isBoundaryLine line = true)
    (plain : '\n' ∉ t) (inside : isBoundaryLine t = false) : Unmarked marks (splitLines t) := by
  intro line member
  rw [splitLines_of_plain plain, List.mem_singleton] at member
  cases marked : marks line with
  | false => rfl
  | true =>
    rw [← inside, ← member]
    exact (boundaries line marked).symm

theorem unmarked_spaces_iff (boundaries : ∀ line, marks line = true → isBoundaryLine line = true)
    (positive : 0 < n) (t : Text) :
    Unmarked marks (splitLines (spaces n ++ t)) ↔ Unmarked marks (splitLines t).tail := by
  obtain ⟨first, more, pieces⟩ := List.exists_cons_of_ne_nil (List.splitOn_ne_nil '\n' t)
  have lines : splitLines t = first :: more := pieces
  have indented : marks (spaces n ++ first) = false := by
    obtain ⟨width, rfl⟩ := Nat.exists_eq_succ_of_ne_zero (Nat.pos_iff_ne_zero.mp positive)
    cases marked : marks (spaces (width + 1) ++ first) with
    | false => rfl
    | true =>
      have inside : isBoundaryLine (spaces (width + 1) ++ first) = false :=
        isBoundaryLine_eq_false (by simp [spaces, List.replicate_succ])
      rw [boundaries _ marked] at inside
      cases inside
  rw [splitLines_append newline_notMem_spaces, lines, List.modifyHead_cons, List.tail_cons,
    Unmarked, List.forall_mem_cons]
  exact and_iff_right indented

structure Rule.Unmarked (marks : Text → Bool) (rule : Rule) : Prop where
  kept : rule.isRaw = true → Style.Unmarked marks (splitLines rule.address.target)
  scope : rule.isRaw = false → Style.Unmarked marks (splitLines rule.scope.selector)
  target : rule.isRaw = false → Style.Unmarked marks (splitLines rule.address.target).tail
  properties : ∀ entry ∈ rule.properties.entries,
    Style.Unmarked marks (splitLines (entry.1 ++ ':' :: ' ' :: entry.2)).tail

theorem unmarked_body_iff (boundaries : ∀ line, marks line = true → isBoundaryLine line = true)
    (positive : 0 < n) (distinct : graph.Distinct) :
    Unmarked marks (graph.bodyLines n) ↔
      (∀ found ∈ graph.bindings, Unmarked marks (splitLines found.line)) ∧
        ∀ rule ∈ graph.rules, rule.Unmarked marks := by
  rw [unmarked_bodyLines_iff]
  constructor
  · intro pieces
    refine ⟨fun found member => pieces _ ?_, fun rule member => ?_⟩
    · exact List.mem_append_left _ (List.mem_append_left _ (List.mem_map.mpr ⟨found, member, rfl⟩))
    have filled := distinct.filled rule member
    cases kept : rule.isRaw with
    | true =>
      obtain ⟨selector, properties⟩ := written_of_raw (n := n) member kept filled
      refine ⟨fun _ => pieces _ selector, by simp [kept], by simp [kept], fun entry inside => ?_⟩
      have piece := pieces _ (properties entry inside)
      rwa [List.append_assoc, unmarked_spaces_iff boundaries positive] at piece
    | false =>
      obtain ⟨scope, target, properties⟩ := written_of_block (n := n) member kept filled
      refine ⟨by simp [kept], fun _ => pieces _ scope, fun _ => ?_, fun entry inside => ?_⟩
      · by_cases root : rule.address.target = selfTarget
        · simp [root, Unmarked, splitLines_of_plain newline_notMem_selfTarget]
        · have piece := pieces _ (target root)
          rwa [Rule.target, unmarked_spaces_iff boundaries positive, tail_splitLines_selector root]
            at piece
      · obtain ⟨width, step, written⟩ := properties entry inside
        have wide : 0 < width := by omega
        have piece := pieces _ written
        rwa [List.append_assoc, unmarked_spaces_iff boundaries wide] at piece
  · rintro ⟨bindings, rules⟩ piece written
    cases writtenLine_of_toLines written with
    | binding member => exact bindings _ member
    | scope member grouped => exact (rules _ member).scope grouped
    | target member grouped other =>
      rw [Rule.target, unmarked_spaces_iff boundaries positive, tail_splitLines_selector other]
      exact (rules _ member).target grouped
    | raw member kept => exact (rules _ member).kept kept
    | property member inside step =>
      rw [List.append_assoc, unmarked_spaces_iff boundaries (by omega)]
      exact (rules _ member).properties _ inside

-- A rule that was read has nothing but its kept selector on a line that may be a mark.
theorem unmarked_applyTo_of (edit : Edit)
    (boundaries : ∀ line, marks line = true → isBoundaryLine line = true) (asRead : graph.AsRead)
    (raws : ∀ rule ∈ (edit.applyTo graph).rules, rule.isRaw = true →
      Unmarked marks (splitLines rule.address.target))
    (strings : trim edit.value ≠ [] → edit.Unmarked marks) :
    ∀ rule ∈ (edit.applyTo graph).rules, rule.Unmarked marks := by
  have each : (edit.applyTo graph).Each (fun _ _ => True)
      (fun address => address.Readable ∧ address.OneLine ∨
        trim edit.value ≠ [] ∧ address = edit.address)
      (fun name value => PlainPair name value ∨ trim edit.value ≠ [] ∧
        (name, value) = (trim edit.property, trim edit.value)) :=
    Graph.Each.setProperty ⟨fun _ _ => trivial,
        fun rule member => .inl ⟨asRead.readable rule member, asRead.plain.addresses rule member⟩,
        fun rule member entry inside => .inl (asRead.plain.properties rule member entry inside)⟩
      (fun present => .inr ⟨present, rfl⟩) fun present => .inr ⟨present, rfl⟩
  intro rule member
  refine ⟨raws rule member, fun grouped => ?_, fun grouped => ?_, fun entry inside => ?_⟩
  · rcases each.addresses rule member with ⟨named, line⟩ | ⟨present, here⟩
    · rw [Address.Readable, if_neg (isRaw_eq_false_iff.mp grouped)] at named
      exact unmarked_of_line boundaries (newline_notMem_scope line) (isBoundaryLine_scope named.1)
    · rw [Rule.scope, here]
      exact (strings present).scope (here ▸ isRaw_eq_false_iff.mp grouped)
  · rcases each.addresses rule member with ⟨_, line⟩ | ⟨present, here⟩
    · simp [Unmarked, splitLines_of_plain line.target]
    · rw [here]
      exact (strings present).target (here ▸ isRaw_eq_false_iff.mp grouped)
  · rcases each.properties rule member entry inside with ⟨names, values⟩ | ⟨present, same⟩
    · simp [Unmarked, splitLines_of_plain (newline_notMem_pair names values)]
    · rw [(Prod.mk.inj same).1, (Prod.mk.inj same).2]
      exact (strings present).property

-- The kept selectors of the graph and, when the edit sets something, the strings of the edit decide
-- it; what else is written was read from lines of a body before.
theorem unmarked_applyTo_iff (edit : Edit)
    (boundaries : ∀ line, marks line = true → isBoundaryLine line = true)
    (positive : 0 < n) (asRead : graph.AsRead) :
    Unmarked marks ((edit.applyTo graph).bodyLines n) ↔
      (∀ rule ∈ (edit.applyTo graph).rules, rule.isRaw = true →
        Unmarked marks (splitLines rule.address.target)) ∧
      (trim edit.value ≠ [] → edit.Unmarked marks) := by
  have changed : (edit.applyTo graph).Distinct := asRead.distinct.setProperty _ _ _
  rw [unmarked_body_iff boundaries positive changed]
  constructor
  · rintro ⟨_, rules⟩
    refine ⟨fun rule member => (rules rule member).kept, fun present => ?_⟩
    have found : (edit.applyTo graph).property? edit.address (trim edit.property) =
        some (trim edit.value) := by
      rw [property?_applyTo asRead.distinct, if_pos ⟨rfl, rfl⟩, wanted, if_neg present]
    obtain ⟨rule, member, here, inside⟩ := (property?_eq_some_iff changed).mp found
    have unmarked := rules rule member
    have grouped : edit.address.blockType ≠ rawType → rule.isRaw = false := fun block =>
      isRaw_eq_false_iff.mpr (here ▸ block)
    refine ⟨fun block => ?_, fun block => ?_, unmarked.properties _ inside⟩
    · rw [← here]
      exact unmarked.scope (grouped block)
    · rw [← here]
      exact unmarked.target (grouped block)
  · rintro ⟨raws, strings⟩
    refine ⟨fun found member => ?_, unmarked_applyTo_of edit boundaries asRead raws strings⟩
    have old : found ∈ graph.bindings := member
    obtain ⟨names, values⟩ := asRead.plain.bindings found old
    exact unmarked_of_line boundaries (newline_notMem_pair names values)
      (isBoundaryLine_binding (asRead.bindings found old))

end marks

-- An edit keeps the blocks and closing tags of a document, and puts no boundary into the style block,
-- exactly when no line that a kept selector or a string of the edit has for itself is one.
theorem structure_patch_iff (positive : 0 < n)
    (accepted : Style.patch n source (Graph.ofSource source) edit = .ok patch) :
    ((blockNames (splitLines patch.text) = blockNames (splitLines source) ∧
        closings (splitLines patch.text) = closings (splitLines source)) ↔
      (edit.Changes (Graph.ofSource source) →
        (∀ rule ∈ patch.graph.rules, rule.isRaw = true →
          Unmarked isMark (splitLines rule.address.target)) ∧
        (trim edit.value ≠ [] → edit.Unmarked isMark))) ∧
    ((∀ line ∈ patch.graph.bodyLines n, isBoundaryLine line = false) ↔
      (∀ rule ∈ patch.graph.rules, rule.isRaw = true →
        Unmarked isBoundaryLine (splitLines rule.address.target)) ∧
      (trim edit.value ≠ [] → edit.Unmarked isBoundaryLine)) := by
  have asRead := asRead_ofSource source
  rw [patch_graph accepted]
  constructor
  · have body := unmarked_applyTo_iff edit (fun _ => isBoundaryLine_of_isMark) positive asRead
    obtain ⟨_, ⟨same, rfl⟩ | ⟨changes, rfl⟩⟩ := patch_cases accepted
    · exact iff_of_true ⟨rfl, rfl⟩ fun changes => absurd changes same
    · rw [structure_writeBlock_iff, body]
      exact ⟨fun unmarked _ => unmarked, fun unmarked => unmarked changes⟩
  · exact unmarked_applyTo_iff edit (fun _ => id) positive asRead

theorem structure_patch_iff_cardColored :
    0 < 2 ∧ Style.patch 2 cardSource (Graph.ofSource cardSource) (cardEdit "red".toList) =
        .ok cardColored ∧
      blockNames (splitLines cardColored.text) = blockNames (splitLines cardSource) ∧
      closings (splitLines cardColored.text) = closings (splitLines cardSource) := by
  have accepted : Style.patch 2 cardSource (Graph.ofSource cardSource) (cardEdit "red".toList) =
      .ok cardColored := by
    decide +kernel
  refine ⟨by decide, accepted, ?_⟩
  exact (structure_patch_iff (by decide) accepted).1.mpr fun _ => by decide +kernel

def bracedSource : Text := "--- style\n--- x \x7b\n  color: red\n--- core/card\nHi".toList

-- The writer leaves out the brace, so that an edit of another rule makes a block of the selector.
-- A value that spans lines does the same.
theorem marks_make_blocks :
    (∃ patch, Style.patch defaultIndent bracedSource (Graph.ofSource bracedSource)
        (cardEdit "blue".toList) = .ok patch ∧
      blockNames (splitLines patch.text) ≠ blockNames (splitLines bracedSource)) ∧
    ∃ patch, Style.patch defaultIndent cardSource (Graph.ofSource cardSource)
        (cardEdit "red\n--- core/text".toList) = .ok patch ∧
      blockNames (splitLines patch.text) ≠ blockNames (splitLines cardSource) :=
  ⟨⟨_, rfl, by decide +kernel⟩, ⟨_, rfl, by decide +kernel⟩⟩

end BlockMarkup.Style
