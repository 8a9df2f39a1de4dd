import BlockMarkup.Proofs.Lines
import BlockMarkup.Proofs.Style.Reading
import BlockMarkup.Style.Region

namespace BlockMarkup.Style

variable {n : Nat} {graph : Graph} {rule : Rule}

structure Address.OneLine (address : Address) : Prop where
  blockType : '\n' ∉ address.blockType
  target : '\n' ∉ address.target
  label : ∀ label ∈ address.label, '\n' ∉ label

def PlainPair (name value : Text) : Prop := '\n' ∉ name ∧ '\n' ∉ value

abbrev Graph.OneLine (graph : Graph) : Prop := graph.Each PlainPair Address.OneLine PlainPair

theorem newline_notMem_rawType : '\n' ∉ rawType := by decide

theorem newline_notMem_selfTarget : '\n' ∉ selfTarget := by decide

def Context.OneLine : Context → Prop
  | .block blockType label target opened =>
    (Address.mk blockType target label).OneLine ∧ ∀ part ∈ opened, '\n' ∉ part.2
  | .raw selector target => '\n' ∉ selector ∧ '\n' ∉ target

theorem Context.OneLine.address {context : Context} (plain : context.OneLine) :
    context.address.OneLine := by
  cases context with
  | block blockType label target opened => exact plain.1
  | raw selector target =>
    exact ⟨newline_notMem_rawType, plain.2, fun _ given => by cases given⟩

theorem Context.OneLine.enter {context : Context} {indent : Nat} {selector : Text}
    (plain : context.OneLine) (line : '\n' ∉ selector) : (context.enter indent selector).OneLine := by
  cases context with
  | raw base target =>
    rw [Context.enter]
    split
    · exact ⟨plain.1, by simp [plain.1, line]⟩
    · exact ⟨plain.1, by simp [plain.1, line]⟩
  | block blockType label target opened =>
    obtain ⟨⟨type, named, labels⟩, parts⟩ := plain
    rcases enter_block indent selector blockType target label opened with
      ⟨rest, rfl, entered⟩ | ⟨pseudo, rfl, entered⟩ | ⟨name, rfl, entered⟩ | entered
    all_goals rw [entered]
    · have inRest : '\n' ∉ trimStart rest := fun member =>
        line (List.mem_cons_of_mem _ (trimStart_subset _ member))
      exact ⟨⟨type, by simp [inRest], labels⟩, by simp⟩
    · have owner : '\n' ∉ Context.pseudoOwner indent opened := by
        rcases pseudoOwner_cases indent opened with root | ⟨part, opens, same⟩
        · rw [root]
          exact newline_notMem_selfTarget
        · rw [same]
          exact parts part opens
      simp only [List.mem_cons, not_or] at line
      exact ⟨⟨type, by simp [owner, line.2], labels⟩, parts⟩
    · simp only [List.mem_cons, not_or] at line
      refine ⟨⟨type, line.2, labels⟩, ?_⟩
      intro part opens
      split at opens
      · cases opens
      · cases opens
        exact line.2
    · exact ⟨⟨type, named, labels⟩, parts⟩

theorem Context.OneLine.ofSelector {blockType : Text} {suffix : Option Text}
    (type : '\n' ∉ blockType) (suffixes : ∀ text ∈ suffix, '\n' ∉ text) :
    (Context.ofSelector blockType suffix).OneLine := by
  have root := newline_notMem_selfTarget
  unfold Context.ofSelector suffixScope
  cases suffix with
  | none => exact ⟨⟨type, root, by simp⟩, by simp⟩
  | some text =>
    have plain : '\n' ∉ text := suffixes text rfl
    dsimp only
    split
    · exact ⟨⟨type, by simp [root, plain], by simp⟩, by simp⟩
    · refine ⟨⟨type, root, ?_⟩, by simp⟩
      intro _ member
      cases member
      exact plain

theorem oneLine_compactAddress {selector : Text} (plain : '\n' ∉ selector) :
    ((compactAddress? selector).getD ⟨rawType, selector, none⟩).OneLine := by
  cases found : compactAddress? selector with
  | none => exact ⟨newline_notMem_rawType, plain, by simp⟩
  | some address =>
    obtain ⟨_, type, labels, target⟩ := compactAddress?_eq_some found
    refine ⟨fun inside => plain (type inside), fun inside => ?_,
      fun label member inside => plain ((labels label member).2 inside)⟩
    rcases target _ inside with inSelector | marks
    · exact plain inSelector
    · exact absurd marks (by decide)

theorem oneLine_ofLines {lines : List Text} (plain : ∀ line ∈ lines, '\n' ∉ line) :
    (Graph.ofLines lines).OneLine := by
  refine each_ofLines (C := Context.OneLine) (fun _ => Context.OneLine.address) ?_
  intro line member
  have clean := plain line member
  have within := within_classify line
  cases kind : StyleLine.classify line with
  | skipped => trivial
  | unknown => trivial
  | block blockType suffix =>
    rw [kind] at within
    exact .ofSelector (fun inside => clean (within.1 inside))
      fun text found inside => clean (within.2 text found inside)
  | «variable» name value =>
    rw [kind] at within
    exact ⟨fun inside => clean (within.1 inside), fun inside => clean (within.2 inside)⟩
  | compact selector declarations =>
    rw [kind] at within
    refine ⟨oneLine_compactAddress fun inside => clean (within.1 inside), ?_⟩
    intro declaration found
    obtain ⟨names, values⟩ := compactDeclarations_within found
    exact ⟨fun inside => clean (within.2 (names inside)),
      fun inside => clean (within.2 (values inside))⟩
  | raw selector =>
    rw [kind] at within
    exact ⟨fun inside => clean (within inside), fun inside => clean (within inside)⟩
  | nested indent selector =>
    rw [kind] at within
    exact fun context holds => holds.enter fun inside => clean (within inside)
  | declaration property value =>
    rw [kind] at within
    exact ⟨fun inside => clean (within.1 inside), fun inside => clean (within.2 inside)⟩

theorem oneLine_ofSource (source : Text) : (Graph.ofSource source).OneLine := by
  unfold Graph.ofSource
  split
  · exact .empty
  · refine oneLine_ofLines fun line member => newline_notMem_of_mem_splitLines (t := source) ?_
    exact List.mem_of_mem_take (List.mem_of_mem_drop member)

theorem newline_notMem_spaces : '\n' ∉ spaces n := by
  intro member
  exact absurd (List.mem_replicate.mp member).2 (by decide)

theorem newline_notMem_pair {name value : Text} (names : '\n' ∉ name) (values : '\n' ∉ value) :
    '\n' ∉ name ++ ':' :: ' ' :: value := by
  simp [names, values]

theorem newline_notMem_scope (plain : rule.address.OneLine) : '\n' ∉ rule.scope.selector := by
  unfold Scope.selector Rule.scope
  split
  · rename_i label found
    simp [plain.blockType, plain.label label found]
  · exact plain.blockType

theorem newline_notMem_selector {target : Text} (plain : '\n' ∉ target) :
    '\n' ∉ (Target.of target).selector := by
  by_cases root : target = selfTarget
  · rw [of_eq_root_iff.mpr root]
    simp [Target.selector]
  · rcases selector_forms target root with ⟨rest, rfl, shown⟩ | ⟨pseudo, rfl, shown⟩ | ⟨_, shown⟩
    · rw [shown]
      exact plain
    · rw [shown]
      exact fun member => plain (List.mem_append_right _ member)
    · rw [shown]
      simpa using plain

theorem mem_groupedRules (member : rule ∈ graph.groupedRules) :
    rule ∈ graph.rules ∧ rule.isRaw = false ∧ rule.properties.entries ≠ [] := by
  obtain ⟨present, kept⟩ := List.mem_filter.mp member
  simp only [Bool.and_eq_true, Bool.not_eq_true', Properties.isEmpty] at kept
  exact ⟨present, kept.1, by simpa using kept.2⟩

theorem mem_rawRules (member : rule ∈ graph.rawRules) :
    rule ∈ graph.rules ∧ rule.isRaw = true ∧ rule.properties.entries ≠ [] := by
  obtain ⟨present, kept⟩ := List.mem_filter.mp member
  simp only [Bool.and_eq_true, Bool.not_eq_true', Properties.isEmpty] at kept
  exact ⟨present, kept.1, by simpa using kept.2⟩

-- The kinds of lines in a written body.
inductive WrittenLine (n : Nat) (graph : Graph) : Text → Prop where
  | binding {found : Variable} (member : found ∈ graph.bindings) : WrittenLine n graph found.line
  | scope {rule : Rule} (member : rule ∈ graph.rules) (grouped : rule.isRaw = false) :
      WrittenLine n graph rule.scope.selector
  | target {rule : Rule} (member : rule ∈ graph.rules) (grouped : rule.isRaw = false)
      (other : rule.address.target ≠ selfTarget) :
      WrittenLine n graph (spaces n ++ rule.target.selector)
  | raw {rule : Rule} (member : rule ∈ graph.rules) (kept : rule.isRaw = true) :
      WrittenLine n graph rule.address.target
  | property {rule : Rule} {entry : Text × Text} {width : Nat} (member : rule ∈ graph.rules)
      (inside : entry ∈ rule.properties.entries) (step : width = n ∨ width = n * 2) :
      WrittenLine n graph (spaces width ++ entry.1 ++ ':' :: ' ' :: entry.2)

theorem writtenLine_of_propertyLines {width : Nat} {line : Text} (present : rule ∈ graph.rules)
    (step : width = n ∨ width = n * 2) (member : line ∈ propertyLines (spaces width) rule) :
    WrittenLine n graph line := by
  obtain ⟨entry, inside, rfl⟩ := List.mem_map.mp member
  exact .property present inside step

theorem writtenLine_of_groupLines {scope : Scope} {line : Text}
    (member : line ∈ graph.groupLines n scope) : WrittenLine n graph line := by
  rw [Graph.groupLines] at member
  split at member
  · cases member
  rename_i filled
  have inGroup : ∀ rule ∈ graph.groupedRules.filter fun rule => rule.scope = scope,
      rule ∈ graph.rules ∧ rule.isRaw = false ∧ rule.scope = scope := by
    intro rule inside
    obtain ⟨grouped, same⟩ := List.mem_filter.mp inside
    obtain ⟨present, raw, _⟩ := mem_groupedRules grouped
    exact ⟨present, raw, by simpa using same⟩
  rcases List.mem_cons.mp member with rfl | below
  · obtain ⟨rule, inside⟩ := List.exists_mem_of_ne_nil _ (mt List.isEmpty_iff.mpr filled)
    obtain ⟨present, grouped, rfl⟩ := inGroup rule inside
    exact .scope present grouped
  rcases List.mem_append.mp below with roots | others
  · obtain ⟨rule, inside, inLines⟩ := List.mem_flatMap.mp roots
    have present := (inGroup rule (List.mem_of_mem_filter inside)).1
    exact writtenLine_of_propertyLines present (.inl rfl) inLines
  · obtain ⟨rule, inside, inLines⟩ := List.mem_flatMap.mp others
    obtain ⟨present, grouped, _⟩ := inGroup rule (List.mem_of_mem_filter inside)
    have other : rule.address.target ≠ selfTarget := by
      have target := (List.mem_filter.mp inside).2
      simpa [Rule.target, of_eq_root_iff] using target
    rcases List.mem_cons.mp inLines with rfl | inLines
    · exact .target present grouped other
    · exact writtenLine_of_propertyLines present (.inr rfl) inLines

theorem writtenLine_of_toLines {line : Text} (member : line ∈ graph.toLines n) :
    WrittenLine n graph line := by
  rcases List.mem_append.mp member with front | raws
  · rcases List.mem_append.mp front with bindings | groups
    · obtain ⟨found, present, rfl⟩ := List.mem_map.mp bindings
      exact .binding present
    · obtain ⟨scope, _, inLines⟩ := List.mem_flatMap.mp groups
      exact writtenLine_of_groupLines inLines
  · obtain ⟨rule, raw, inLines⟩ := List.mem_flatMap.mp raws
    obtain ⟨present, kept, _⟩ := mem_rawRules raw
    rcases List.mem_cons.mp inLines with rfl | inLines
    · exact .raw present kept
    · exact writtenLine_of_propertyLines present (.inl rfl) inLines

theorem newline_notMem_toLines (plain : graph.OneLine) : ∀ line ∈ graph.toLines n, '\n' ∉ line := by
  intro line inLines
  cases writtenLine_of_toLines inLines with
  | binding present =>
    obtain ⟨names, values⟩ := plain.bindings _ present
    exact newline_notMem_pair names values
  | scope present _ => exact newline_notMem_scope (plain.addresses _ present)
  | target present _ _ =>
    have target := newline_notMem_selector (plain.addresses _ present).target
    simpa [Rule.target, newline_notMem_spaces] using target
  | raw present _ => exact (plain.addresses _ present).target
  | property present inside _ =>
    obtain ⟨names, values⟩ := plain.properties _ present _ inside
    exact newline_notMem_pair (by simp [names, newline_notMem_spaces]) values

def ClosedBy (P : Text → Prop) (lines : List Text) : Prop := ∀ line ∈ lines.getLast?, P line

variable {P : Text → Prop}

theorem ClosedBy.of_all {lines : List Text} (all : ∀ line ∈ lines, P line) : ClosedBy P lines :=
  fun line last => all line (List.mem_of_getLast? last)

theorem ClosedBy.append {front back : List Text} (first : ClosedBy P front)
    (second : ClosedBy P back) : ClosedBy P (front ++ back) := by
  intro line last
  rw [List.getLast?_append] at last
  cases found : back.getLast? with
  | none => exact first line (by simpa [found] using last)
  | some other => exact second line (by simpa [found] using last)

theorem ClosedBy.flatMap {α : Type} {items : List α} {f : α → List Text}
    (each : ∀ item ∈ items, ClosedBy P (f item)) : ClosedBy P (items.flatMap f) := by
  induction items with
  | nil => exact .of_all (by simp)
  | cons item rest ih =>
    rw [List.flatMap_cons]
    exact (each item (by simp)).append (ih fun later member => each later (by simp [member]))

theorem ClosedBy.cons {line : Text} {lines : List Text} (closed : ClosedBy P lines)
    (present : lines ≠ []) : ClosedBy P (line :: lines) := by
  intro found last
  obtain ⟨first, rest, rfl⟩ := List.exists_cons_of_ne_nil present
  exact closed found (by simpa using last)

theorem propertyLines_ne_nil {indent : Text} (filled : rule.properties.entries ≠ []) :
    propertyLines indent rule ≠ [] := by
  simpa [propertyLines] using filled

theorem groupLines_closed (scope : Scope)
    (pairs : ∀ rule ∈ graph.rules, ∀ width, width = n ∨ width = n * 2 →
      ∀ line ∈ propertyLines (spaces width) rule, P line) :
    ClosedBy P (graph.groupLines n scope) := by
  rw [Graph.groupLines]
  split
  · exact .of_all (by simp)
  · rename_i present
    have grouped : ∀ rule ∈ graph.groupedRules.filter fun rule => rule.scope = scope,
        rule ∈ graph.rules ∧ rule.properties.entries ≠ [] := by
      intro rule inside
      obtain ⟨member, _, filled⟩ := mem_groupedRules (List.mem_of_mem_filter inside)
      exact ⟨member, filled⟩
    refine ClosedBy.cons (ClosedBy.append ?_ ?_) ?_
    · refine .flatMap fun rule inside => .of_all ?_
      exact pairs rule (grouped rule (List.mem_of_mem_filter inside)).1 n (.inl rfl)
    · refine .flatMap fun rule inside => ?_
      obtain ⟨member, filled⟩ := grouped rule (List.mem_of_mem_filter inside)
      exact (ClosedBy.of_all (pairs rule member (n * 2) (.inr rfl))).cons (propertyLines_ne_nil filled)
    · obtain ⟨rule, inside⟩ := List.exists_mem_of_ne_nil _ (mt List.isEmpty_iff.mpr present)
      have filled := (grouped rule inside).2
      intro empty
      obtain ⟨noRoots, noOthers⟩ := List.append_eq_nil_iff.mp empty
      rw [List.flatMap_eq_nil_iff] at noRoots noOthers
      by_cases root : rule.target = Target.root
      · exact propertyLines_ne_nil filled
          (noRoots rule (List.mem_filter.mpr ⟨inside, by simp [root]⟩))
      · cases noOthers rule (List.mem_filter.mpr ⟨inside, by simp [root]⟩)

theorem toLines_closed (bindings : ∀ found ∈ graph.bindings, P found.line)
    (pairs : ∀ rule ∈ graph.rules, ∀ width, width = n ∨ width = n * 2 →
      ∀ line ∈ propertyLines (spaces width) rule, P line) :
    ClosedBy P (graph.toLines n) := by
  refine ClosedBy.append (ClosedBy.append (.of_all ?_) ?_) ?_
  · intro line member
    obtain ⟨found, present, rfl⟩ := List.mem_map.mp member
    exact bindings found present
  · exact .flatMap fun scope _ => groupLines_closed scope pairs
  · refine .flatMap fun rule raw => ?_
    obtain ⟨present, _, filled⟩ := mem_rawRules raw
    exact (ClosedBy.of_all (pairs rule present n (.inl rfl))).cons (propertyLines_ne_nil filled)

theorem toLines_closed_by_colon : ClosedBy (':' ∈ ·) (graph.toLines n) := by
  refine toLines_closed (fun found _ => by simp [Variable.line]) ?_
  intro rule _ width _ line member
  obtain ⟨entry, _, rfl⟩ := List.mem_map.mp member
  simp

theorem toBody_eq_nil_iff : graph.toBody n = [] ↔ graph.toLines n = [] := by
  rw [Graph.toBody, joinLines_eq_nil_iff]
  constructor
  · rintro (none | blank)
    · exact none
    · have closed : ∀ line ∈ (graph.toLines n).getLast?, ':' ∈ line := toLines_closed_by_colon
      rw [blank] at closed
      cases closed [] rfl
  · exact .inl

theorem bodyLines_of_oneLine (plain : graph.OneLine) : graph.bodyLines n = graph.toLines n := by
  rw [Graph.bodyLines]
  split
  · rename_i empty
    exact (toBody_eq_nil_iff.mp empty).symm
  · rename_i present
    exact splitLines_joinLines (mt toBody_eq_nil_iff.mpr present) (newline_notMem_toLines plain)

theorem notMem_of_chars {p : Char → Bool} {t : Text} (chars : ∀ c ∈ t, p c = true)
    (no : p '\n' = false) : '\n' ∉ t := by
  intro member
  rw [chars _ member] at no
  cases no

theorem IsVariableName.oneLine {name : Text} (valid : IsVariableName name) : '\n' ∉ name := by
  obtain ⟨c, rest, rfl, start, chars⟩ := valid
  refine notMem_of_chars (p := StyleLine.isVariableChar) ?_ (by decide)
  intro d member
  rcases List.mem_cons.mp member with rfl | later
  · exact isVariableChar_of_isVariableStart start
  · exact chars d later

theorem IsPropertyName.oneLine {name : Text} (valid : IsPropertyName name) : '\n' ∉ name := by
  obtain ⟨c, rest, rfl, start, chars⟩ := valid
  refine notMem_of_chars (p := isNameChar) ?_ (by decide)
  intro d member
  rcases List.mem_cons.mp member with rfl | later
  · exact isNameChar_of_isPropertyStart start
  · exact chars d later

theorem Address.Canonical.oneLine {address : Address} (canonical : address.Canonical) :
    address.OneLine := by
  obtain ⟨blockType, target, label⟩ := address
  unfold Address.Canonical at canonical
  split at canonical
  · rename_i raw
    obtain ⟨noLabel, plain, _⟩ := canonical
    dsimp only at raw noLabel
    subst raw noLabel
    exact ⟨newline_notMem_rawType, plain, by simp⟩
  · obtain ⟨valid, labels, plain, _⟩ := canonical
    refine ⟨notMem_of_chars (isPathChar_of_isBlockType valid) (by decide), plain, ?_⟩
    exact fun label found => notMem_of_chars (labels label found).2.1 (by decide)

theorem Graph.Canonical.oneLine (canonical : graph.Canonical) : graph.OneLine where
  bindings found member :=
    ⟨(canonical.bindings found member).named.oneLine, (canonical.bindings found member).valued.2.2⟩
  addresses rule member := (canonical.rules rule member).address.oneLine
  properties rule member entry inside :=
    ⟨((canonical.rules rule member).properties entry inside).named.oneLine,
      ((canonical.rules rule member).properties entry inside).valued.2.2⟩

end BlockMarkup.Style
