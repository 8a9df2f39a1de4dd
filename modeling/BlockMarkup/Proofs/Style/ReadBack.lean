import BlockMarkup.Proofs.Style.Isolation
import BlockMarkup.Proofs.Style.Laws

namespace BlockMarkup.Style

variable {n : Nat} {source : Text} {graph other : Graph} {edit : Edit} {patch : Patch}

theorem ofSource_writeBlock (plain : graph.OneLine) (isolated : Isolated n source graph) :
    Graph.ofSource (writeBlock n source graph).text = Graph.ofLines (graph.toLines n) := by
  rw [← bodyLines_of_oneLine plain]
  rcases Region.first?_cases source with ⟨absent, headers⟩ |
    ⟨above, header, body, blanks, below, parts⟩
  · obtain ⟨noBoundary, gap⟩ := (isolated_of_none absent).mp isolated
    by_cases empty : graph.bodyLines n = []
    · rw [writeBlock_of_none absent, if_pos empty, empty]
      exact ofSource_of_none absent
    · have lines := splitLines_written_new absent empty
      obtain ⟨rest, written⟩ := parts_written lines
        (fun line member => headers line (List.mem_of_mem_take member)) (by decide)
        (bodyLines_closed plain) noBoundary (gap empty)
      exact ofSource_of_parts written
  · obtain ⟨noBoundary, single⟩ := (isolated_of_parts parts).mp isolated
    by_cases empty : graph.bodyLines n = []
    · have before : splitLines source = above ++ ((header :: body) ++ (blanks ++ below)) := by
        rw [parts.whole, List.cons_append]
      have noNewline : ∀ line ∈ above ++ ([] ++ (blanks ++ below)), '\n' ∉ line :=
        newline_notMem_written before (by simp)
      rw [writeBlock_of_parts parts, blockLines, if_pos empty, empty]
      refine ofSource_of_none (Region.first?_eq_none ?_)
      have others := single empty
      rw [List.nil_append] at noNewline ⊢
      cases left : above ++ (blanks ++ below) with
      | nil =>
        have noHeader : isStyleHeader [] = false := by decide
        simp [joinLines, splitLines, noHeader]
      | cons line rest =>
        rw [left] at noNewline others
        rw [splitLines_joinLines (by simp) noNewline]
        exact others
    · have lines := splitLines_written_over parts empty
      have gap : ∀ line ∈ linesToBoundary (blanks ++ below), isBlankLine line = true := by
        rw [linesToBoundary_blanks parts]
        exact parts.blank
      obtain ⟨rest, written⟩ := parts_written lines parts.first parts.isHeader
        (bodyLines_closed plain) noBoundary gap
      exact ofSource_of_parts written

theorem canonical_iff : graph.Canonical ↔ graph.Distinct ∧
    graph.Each (fun name value => (Variable.mk name value).Canonical) Address.Canonical
      CanonicalProperty := by
  constructor
  · intro canonical
    exact ⟨canonical.distinct, canonical.bindings,
      fun rule member => (canonical.rules rule member).address,
      fun rule member => (canonical.rules rule member).properties⟩
  · rintro ⟨distinct, each⟩
    refine ⟨distinct.names, distinct.addresses, each.bindings, fun rule member => ?_⟩
    exact ⟨each.addresses rule member, distinct.filled rule member, each.properties rule member⟩

theorem Graph.Canonical.setProperty {address : Address} {property value : Text}
    (canonical : graph.Canonical) (here : value ≠ [] → address.Canonical)
    (new : value ≠ [] → CanonicalProperty property value) :
    (graph.setProperty address property value).Canonical := by
  obtain ⟨distinct, each⟩ := canonical_iff.mp canonical
  exact canonical_iff.mpr ⟨distinct.setProperty _ _ _, each.setProperty here new⟩

theorem alike_ofLines_toLines (positive : 0 < n) (canonical : graph.Canonical) :
    (Graph.ofLines (graph.toLines n)).Alike graph := by
  have rules := regrouped_perm canonical.addresses.of_map
  have distinct := distinct_ofLines (graph.toLines n)
  rw [ofLines_toLines positive canonical] at distinct ⊢
  exact alike_of_perm distinct canonical.distinct rfl rules

def Address.Placed (address : Address) : Prop :=
  if address.blockType = rawType then IsRawSelector address.target
  else isBlockType address.blockType = true ∧ (∀ label ∈ address.label, IsLabel label) ∧
    EndsFilled address.target

theorem Address.Canonical.placed {address : Address} (canonical : address.Canonical) :
    address.Placed := by
  unfold Address.Canonical at canonical
  unfold Address.Placed
  split
  · rename_i raw
    rw [if_pos raw] at canonical
    exact canonical.2
  · rename_i block
    rw [if_neg block] at canonical
    exact ⟨canonical.1, canonical.2.1, canonical.2.2.ends⟩

theorem Address.Placed.raw {address : Address} (placed : address.Placed)
    (raw : address.blockType = rawType) : IsRawSelector address.target := by
  rwa [Address.Placed, if_pos raw] at placed

theorem Address.Placed.block {address : Address} (placed : address.Placed)
    (block : address.blockType ≠ rawType) :
    isBlockType address.blockType = true ∧ (∀ label ∈ address.label, IsLabel label) ∧
      EndsFilled address.target := by
  rwa [Address.Placed, if_neg block] at placed

theorem canonicalProperty_of_parts {property value : Text} (valued : IsValue value)
    (parts : StyleLine.declarationParts? (property ++ ':' :: ' ' :: value) = some (property, value)) :
    CanonicalProperty property value := by
  obtain ⟨blanks, text, split, blank, named, read, _⟩ := declarationParts?_eq_some parts
  refine ⟨named, valued, ?_⟩
  have rest := List.append_cancel_left split
  cases blanks with
  | cons c blanks =>
    have colon : ':' = c := (List.cons.inj rest).1
    cases colon ▸ blank c (by simp)
  | nil =>
    have same : text = ' ' :: value := ((List.cons.inj rest).2).symm
    have started : trimStart (' ' :: value) = value := trimStart_eq_self valued.starts
    rw [same, started] at read
    intro semicolon
    rw [StyleLine.dropSemicolon, if_pos semicolon] at read
    have length := trim_length_le value.dropLast
    have positive := List.length_pos_iff.mpr valued.1
    rw [← read, List.length_dropLast] at length
    omega

-- What a line may be read as so that the property in question is read only where it is canonical.
def StyleLine.Tame (property value : Text) : StyleLine → Prop
  | .compact _ _ => False
  | .declaration name text => name = property → text = value → CanonicalProperty property value
  | _ => True

section written

variable {property value : Text}

theorem tame_indented {width : Nat} (positive : 0 < width) (present : property ≠ [])
    (starts : StartsFilled property) (valued : IsValue value) :
    (StyleLine.classify (spaces width ++ property ++ ':' :: ' ' :: value)).Tame property value := by
  obtain ⟨c, rest, rfl⟩ := List.exists_cons_of_ne_nil present
  have ends : EndsFilled (c :: rest ++ ':' :: ' ' :: value) := pair_ends valued
  rw [List.append_assoc, List.cons_append] at *
  rw [classify_content (startsFilled_cons.mp starts) ends, if_neg (Nat.pos_iff_ne_zero.mp positive)]
  split
  · trivial
  · unfold StyleLine.indented
    split
    · trivial
    split
    · rename_i name text parts
      rintro rfl rfl
      exact canonicalProperty_of_parts valued parts
    · trivial

theorem tame_writtenLine (positive : 0 < n) (bindings : ∀ found ∈ other.bindings, found.Canonical)
    (placed : ∀ rule ∈ other.rules, rule.address.Placed)
    (properties : ∀ rule ∈ other.rules, ∀ entry ∈ rule.properties.entries,
      CanonicalProperty entry.1 entry.2 ∨ entry = (property, value))
    (present : property ≠ []) (starts : StartsFilled property) (valued : IsValue value)
    {line : Text} (written : WrittenLine n other line) :
    (StyleLine.classify line).Tame property value := by
  cases written with
  | binding inGraph =>
    rw [classify_variable (bindings _ inGraph)]
    trivial
  | scope inGraph grouped =>
    obtain ⟨blockType, labels, _⟩ := (placed _ inGraph).block (by simpa [Rule.isRaw] using grouped)
    rw [classify_scope blockType labels]
    trivial
  | target inGraph grouped apart =>
    obtain ⟨_, _, ends⟩ := (placed _ inGraph).block (by simpa [Rule.isRaw] using grouped)
    rw [Rule.target, classify_nested positive ends apart]
    trivial
  | raw inGraph kept =>
    rw [((placed _ inGraph).raw (by simpa [Rule.isRaw] using kept)).2]
    trivial
  | @property rule entry width inGraph inside step =>
    have wide : 0 < width := by omega
    rcases properties rule inGraph entry inside with canonical | rfl
    · rw [classify_property wide canonical]
      rintro rfl rfl
      exact canonical
    · exact tame_indented wide present starts valued

theorem canonicalProperty_of_read (positive : 0 < n)
    (bindings : ∀ found ∈ other.bindings, found.Canonical)
    (placed : ∀ rule ∈ other.rules, rule.address.Placed)
    (properties : ∀ rule ∈ other.rules, ∀ entry ∈ rule.properties.entries,
      CanonicalProperty entry.1 entry.2 ∨ entry = (property, value))
    (present : property ≠ []) (starts : StartsFilled property) (valued : IsValue value)
    {rule : Rule} (read : rule ∈ (Graph.ofLines (other.toLines n)).rules)
    (entry : (property, value) ∈ rule.properties.entries) : CanonicalProperty property value := by
  have each : (Graph.ofLines (other.toLines n)).Each (fun _ _ => True) (fun _ => True)
      fun name text => name = property → text = value → CanonicalProperty property value :=
    each_ofLines (C := fun _ => True) (fun _ => id) ?_
  · exact each.properties rule read _ entry rfl rfl
  intro line inLines
  have tame := tame_writtenLine positive bindings placed properties present starts valued
    (writtenLine_of_toLines inLines)
  cases kind : StyleLine.classify line with
  | compact selector declarations =>
    rw [kind] at tame
    cases tame
  | declaration name text =>
    rw [kind] at tame
    exact tame
  | nested indent selector => exact fun _ _ => trivial
  | _ => trivial

theorem noGap_of_read (positive : 0 < n) (bindings : ∀ found ∈ other.bindings, found.Canonical)
    (placed : ∀ rule ∈ other.rules, rule.address.Placed)
    (properties : ∀ rule ∈ other.rules, ∀ entry ∈ rule.properties.entries,
      CanonicalProperty entry.1 entry.2)
    {rule : Rule} (read : rule ∈ (Graph.ofLines (other.toLines n)).rules) :
    rule.address.blockType = rawType ∨ NoGap rule.address.target := by
  refine noGap_ofLines ?_ rule read
  intro line inLines indent name kind
  cases writtenLine_of_toLines inLines with
  | binding inGraph =>
    rw [classify_variable (bindings _ inGraph)] at kind
    cases kind
  | scope inGraph grouped =>
    obtain ⟨blockType, labels, _⟩ := (placed _ inGraph).block (by simpa [Rule.isRaw] using grouped)
    rw [classify_scope blockType labels] at kind
    cases kind
  | target inGraph grouped apart =>
    obtain ⟨_, _, ends⟩ := (placed _ inGraph).block (by simpa [Rule.isRaw] using grouped)
    rw [Rule.target, classify_nested positive ends apart] at kind
    obtain ⟨_, shown⟩ := StyleLine.nested.inj kind
    rcases selector_forms _ apart with ⟨rest, _, form⟩ | ⟨pseudo, _, form⟩ | ⟨noAngle, form⟩
    · rw [form] at shown
      cases shown
    · rw [form] at shown
      cases shown
    · rw [form] at shown
      rw [← (List.cons.inj shown).2]
      exact noAngle
  | raw inGraph kept =>
    rw [((placed _ inGraph).raw (by simpa [Rule.isRaw] using kept)).2] at kind
    cases kind
  | @property rule entry width inGraph inside step =>
    rw [classify_property (by omega) (properties rule inGraph entry inside)] at kind
    cases kind

end written

theorem toLines_append_raw {bindings : List Variable} {rules : List Rule} {rule : Rule}
    (raw : rule.isRaw = true) (filled : rule.properties.entries ≠ []) :
    Graph.toLines n ⟨bindings, rules ++ [rule]⟩ =
      Graph.toLines n ⟨bindings, rules⟩ ++
        rule.address.target :: propertyLines (spaces n) rule := by
  have nonempty : rule.properties.isEmpty = false := by simpa [Properties.isEmpty] using filled
  have grouped : Graph.groupedRules ⟨bindings, rules ++ [rule]⟩ =
      Graph.groupedRules ⟨bindings, rules⟩ := by
    simp [Graph.groupedRules, raw]
  have scopes : Graph.scopes ⟨bindings, rules ++ [rule]⟩ = Graph.scopes ⟨bindings, rules⟩ := by
    simp [Graph.scopes, raw]
  have raws : Graph.rawRules ⟨bindings, rules ++ [rule]⟩ =
      Graph.rawRules ⟨bindings, rules⟩ ++ [rule] := by
    simp [Graph.rawRules, raw, nonempty]
  have groups : Graph.groupLines n ⟨bindings, rules ++ [rule]⟩ =
      Graph.groupLines n ⟨bindings, rules⟩ := by
    funext scope
    rw [Graph.groupLines, Graph.groupLines, grouped]
  rw [Graph.toLines, Graph.toLines, scopes, raws, groups, List.flatMap_append]
  simp

theorem addresses_setProperty {address found : Address} {property value : Text}
    (member : found ∈ (graph.setProperty address property value).rules.map Rule.address) :
    found ∈ graph.rules.map Rule.address ∨ found = address := by
  simp only [Graph.setProperty] at member
  split at member
  · exact .inl ((addresses_removeFrom ..).subset member)
  · rw [addresses_putIn] at member
    split at member
    · exact .inl member
    · simpa using member

-- What shows a variable or a property ends in a line that leaves no context without a rule.
inductive Closing : StyleLine → Prop where
  | binding (name value : Text) : Closing (.variable name value)
  | declaration (property : Text) {value : Text} (present : value ≠ []) :
      Closing (.declaration property value)

theorem context_of_closing (reading : Reading) {kind : StyleLine} (closing : Closing kind) :
    ∀ found ∈ (reading.read kind).context,
      found.address ∈ (reading.read kind).graph.rules.map Rule.address := by
  intro found opened
  cases closing with
  | binding name value => cases opened
  | declaration property present =>
    rw [Reading.read] at opened ⊢
    split at opened
    · rename_i outside
      rw [outside] at opened
      cases opened
    · rename_i context inside
      rw [inside] at opened ⊢
      cases opened
      dsimp only
      rw [Graph.setProperty, if_neg present, addresses_putIn]
      split
      · assumption
      · simp

theorem toLines_closing (positive : 0 < n) (canonical : graph.Canonical) :
    ClosedBy (fun line => Closing (StyleLine.classify line)) (graph.toLines n) := by
  apply toLines_closed
  · intro found member
    rw [classify_variable (canonical.bindings found member)]
    exact .binding _ _
  · intro rule member width step line inLines
    obtain ⟨entry, inside, rfl⟩ := List.mem_map.mp inLines
    have property := (canonical.rules rule member).properties entry inside
    rw [classify_property (by omega) property]
    exact .declaration _ property.valued.1

theorem read_toLines_context (positive : 0 < n) (canonical : graph.Canonical) :
    ∃ context, (graph.toLines n).foldl Reading.next .start = ⟨graph.regrouped, context⟩ ∧
      ∀ found ∈ context, found.address ∈ graph.rules.map Rule.address := by
  obtain ⟨context, read⟩ := read_toLines positive canonical
  refine ⟨context, read, ?_⟩
  have rules := regrouped_perm canonical.addresses.of_map
  rcases List.eq_nil_or_concat (graph.toLines n) with empty | ⟨front, last, cut⟩
  · rw [empty] at read
    have outside : none = context := congrArg Reading.context read
    rw [← outside]
    intro _ member
    cases member
  · have closing : Closing (StyleLine.classify last) :=
      toLines_closing positive canonical last (by simp [cut])
    rw [cut, List.concat_eq_append, List.foldl_append, List.foldl_cons, List.foldl_nil,
      Reading.next] at read
    have inRules := context_of_closing (front.foldl Reading.next .start) closing
    rw [read] at inRules
    exact fun found opened => (rules.map Rule.address).mem_iff.mp (inRules found opened)

-- Lines other than one-line rules add no rule but that of the context.
theorem addresses_read {reading : Reading} {line : StyleLine} {found : Address}
    (noCompact : ∀ selector declarations, line ≠ .compact selector declarations)
    (member : found ∈ (reading.read line).graph.rules.map Rule.address) :
    found ∈ reading.graph.rules.map Rule.address ∨
      ∃ context ∈ reading.context, found = context.address := by
  cases line with
  | compact selector declarations => exact absurd rfl (noCompact selector declarations)
  | declaration property value =>
    rw [Reading.read] at member
    split at member
    · exact .inl member
    · rename_i context inside
      exact (addresses_setProperty member).imp_right fun same => ⟨context, inside, same⟩
  | _ => exact .inl member

theorem addresses_compact {reading : Reading} {selector declarations : Text} {found : Address}
    (member : found ∈ (reading.read (.compact selector declarations)).graph.rules.map Rule.address) :
    found ∈ reading.graph.rules.map Rule.address ∨
      found = (compactAddress? selector).getD ⟨rawType, selector, none⟩ := by
  simp only [Reading.read] at member
  generalize compactDeclarations declarations = pairs at member
  generalize reading.graph = graph at member ⊢
  induction pairs generalizing graph with
  | nil => exact .inl member
  | cons pair pairs ih =>
    rcases ih _ member with before | here
    · exact addresses_setProperty before
    · exact .inr here

theorem compact_apart {target selector declarations : Text}
    (parts : StyleLine.compactParts? target = some (selector, declarations)) :
    ⟨rawType, target, none⟩ ≠ (compactAddress? selector).getD ⟨rawType, selector, none⟩ := by
  intro same
  obtain ⟨_, _, noBrace, brace⟩ := compactParts?_within parts
  cases named : compactAddress? selector with
  | none =>
    rw [named] at same
    cases same
    exact absurd brace noBrace
  | some address =>
    rw [named, Option.getD_some] at same
    have type := (compactAddress?_eq_some named).1
    rw [← same] at type
    exact absurd rfl (ne_rawType type)

theorem raw_of_atMargin {reading : Reading} {target : Text}
    (fresh : ⟨rawType, target, none⟩ ∉ reading.graph.rules.map Rule.address)
    (made : ⟨rawType, target, none⟩ ∈
        (reading.read (StyleLine.atMargin target)).graph.rules.map Rule.address ∨
      ∃ context ∈ (reading.read (StyleLine.atMargin target)).context,
        ⟨rawType, target, none⟩ = context.address) :
    StyleLine.atMargin target = .raw target := by
  unfold StyleLine.atMargin at made ⊢
  split at made
  · rename_i selector declarations parts
    rcases made with member | ⟨found, opened, _⟩
    · rcases addresses_compact member with old | new
      · exact absurd old fresh
      · exact absurd new (compact_apart parts)
    · cases opened
  split at made
  · rename_i blockType suffix parts
    rcases made with member | ⟨found, opened, same⟩
    · exact absurd member fresh
    · cases opened
      have type := (blockSelector?_eq_some parts).1
      exact absurd (congrArg Address.blockType same).symm (ne_rawType type)
  split at made
  · rcases made with member | ⟨found, opened, _⟩
    · exact absurd member fresh
    · cases opened
  rcases made with member | ⟨found, opened, same⟩
  · exact absurd member fresh
  · cases opened
    have named : target = StyleLine.rawSelector target := congrArg Address.target same
    exact congrArg StyleLine.raw named.symm

theorem classify_filled {target : Text} (filled : target ≠ []) (starts : StartsFilled target)
    (ends : EndsFilled target) :
    StyleLine.classify target = .skipped ∨
      StyleLine.classify target = StyleLine.atMargin target := by
  obtain ⟨c, rest, rfl⟩ := List.exists_cons_of_ne_nil filled
  have content := classify_content (n := 0) (startsFilled_cons.mp starts) ends
  rw [if_pos rfl] at content
  split at content
  · exact .inl content
  · exact .inr content

theorem classify_raw_of_read (positive : 0 < n) (canonical : graph.Canonical)
    {target property value : Text} (filled : target ≠ []) (starts : StartsFilled target)
    (ends : EndsFilled target) (present : property ≠ []) (solid : StartsFilled property)
    (valued : IsValue value) (absent : ⟨rawType, target, none⟩ ∉ graph.rules.map Rule.address)
    (read : ⟨rawType, target, none⟩ ∈ (Graph.ofLines (graph.toLines n ++
      [target, spaces n ++ property ++ ':' :: ' ' :: value])).rules.map Rule.address) :
    StyleLine.classify target = .raw target := by
  obtain ⟨context, front, inside⟩ := read_toLines_context positive canonical
  have rules := regrouped_perm canonical.addresses.of_map
  have fresh : ⟨rawType, target, none⟩ ∉ graph.regrouped.rules.map Rule.address := fun member =>
    absent ((rules.map Rule.address).mem_iff.mp member)
  have tame := tame_indented positive present solid valued
  have noCompact : ∀ selector declarations,
      StyleLine.classify (spaces n ++ property ++ ':' :: ' ' :: value) ≠
        .compact selector declarations := by
    intro selector declarations kind
    rw [kind] at tame
    cases tame
  rw [Graph.ofLines, List.foldl_append, front, List.foldl_cons, List.foldl_cons, List.foldl_nil,
    Reading.next, Reading.next] at read
  have made := addresses_read noCompact read
  rcases classify_filled filled starts ends with skipped | margin
  · rw [skipped] at made
    rcases made with member | ⟨found, opened, same⟩
    · exact absurd member fresh
    · exact absurd (same ▸ inside found opened) absent
  · rw [margin] at made ⊢
    exact raw_of_atMargin fresh made

-- An edit whose strings the notation can show.
def Edit.Canonical (edit : Edit) : Prop :=
  edit.address.Canonical ∧ CanonicalProperty (trim edit.property) (trim edit.value)

instance : DecidablePred Edit.Canonical := fun edit =>
  inferInstanceAs (Decidable (edit.address.Canonical ∧
    CanonicalProperty (trim edit.property) (trim edit.value)))

theorem property?_applyTo (distinct : graph.Distinct) (edit : Edit) (address : Address)
    (name : Text) :
    (edit.applyTo graph).property? address name =
      if address = edit.address ∧ name = trim edit.property then wanted (trim edit.value)
      else graph.property? address name :=
  property?_setProperty distinct _ _ _ address name

theorem refusal?_eq_none (allowed : edit.refusal? = none) :
    trim edit.target ≠ [] ∧ trim edit.property ≠ [] := by
  unfold Edit.refusal? at allowed
  split at allowed
  · cases allowed
  split at allowed
  · cases allowed
  split at allowed
  · cases allowed
  rename_i target
  split at allowed
  · cases allowed
  rename_i property
  exact ⟨target, property⟩

theorem canonical_of_property? (canonical : graph.Canonical) {address : Address}
    {property value : Text} (found : graph.property? address property = some value) :
    address.Canonical ∧ CanonicalProperty property value := by
  obtain ⟨rule, member, rfl, inside⟩ := (property?_eq_some_iff canonical.distinct).mp found
  exact ⟨(canonical.rules rule member).address, (canonical.rules rule member).properties _ inside⟩

theorem placed_of_canonical (canonical : graph.Canonical) :
    ∀ rule ∈ graph.rules, rule.address.Placed :=
  fun rule member => (canonical.rules rule member).address.placed

theorem placed_of_read (positive : 0 < n) (canonical : graph.Canonical) (plain : edit.OneLine)
    (allowed : edit.refusal? = none) (valued : IsValue (trim edit.value)) {rule : Rule}
    (read : rule ∈ (Graph.ofLines ((edit.applyTo graph).toLines n)).rules)
    (here : rule.address = edit.address) :
    edit.address.Placed ∧ edit.address.Readable := by
  obtain ⟨target, property⟩ := refusal?_eq_none allowed
  have readable := readable_ofLines _ rule read
  rw [here] at readable
  refine ⟨?_, readable⟩
  by_cases raw : edit.address.blockType = rawType
  · rw [Address.Placed, if_pos raw]
    rw [Address.Readable, if_pos raw] at readable
    refine ⟨plain.address.target, ?_⟩
    have address : edit.address = ⟨rawType, trim edit.target, none⟩ := by
      rw [← raw, ← readable]
      rfl
    by_cases old : edit.address ∈ graph.rules.map Rule.address
    · obtain ⟨known, member, same⟩ := List.mem_map.mp old
      have placed := placed_of_canonical canonical known member
      rw [same] at placed
      exact (placed.raw raw).2
    · have rules : edit.applyTo graph = ⟨graph.bindings, graph.rules ++
          [⟨edit.address, Properties.empty.insert (trim edit.property) (trim edit.value)⟩]⟩ := by
        rw [Edit.applyTo, Graph.setProperty, if_neg valued.1, putIn_absent old]
      have isRaw : Rule.isRaw
          ⟨edit.address, Properties.empty.insert (trim edit.property) (trim edit.value)⟩ = true := by
        simpa [Rule.isRaw] using raw
      have member : edit.address ∈
          (Graph.ofLines ((edit.applyTo graph).toLines n)).rules.map Rule.address :=
        List.mem_map.mpr ⟨rule, read, here⟩
      rw [rules, toLines_append_raw isRaw (Properties.entries_insert_ne_nil _ _ _), address] at member
      rw [address] at old
      exact classify_raw_of_read positive canonical target (startsFilled_trim _)
        (endsFilled_trim _) property (startsFilled_trim _) valued old member
  · rw [Address.Placed, if_neg raw]
    rw [Address.Readable, if_neg raw] at readable
    exact ⟨readable.1, readable.2, endsFilled_trim _⟩

theorem canonical_of_property?_read (positive : 0 < n) (canonical : graph.Canonical)
    (plain : edit.OneLine) (allowed : edit.refusal? = none) (present : trim edit.value ≠ [])
    (value : (Graph.ofLines ((edit.applyTo graph).toLines n)).property? edit.address
      (trim edit.property) = some (trim edit.value)) : edit.Canonical := by
  have valued : IsValue (trim edit.value) :=
    ⟨present, trim_trim _, newline_notMem_trim plain.value⟩
  obtain ⟨distinct, each⟩ := canonical_iff.mp canonical
  obtain ⟨rule, read, here, inside⟩ := (property?_eq_some_iff (distinct_ofLines _)).mp value
  obtain ⟨placed, readable⟩ := placed_of_read positive canonical plain allowed valued read here
  have changed : (edit.applyTo graph).Each (fun name value => (Variable.mk name value).Canonical)
      Address.Placed (fun name value => CanonicalProperty name value ∨
        (name, value) = (trim edit.property, trim edit.value)) :=
    Graph.Each.setProperty ⟨each.bindings, placed_of_canonical canonical,
      fun rule member entry inside => .inl (each.properties rule member entry inside)⟩
      (fun _ => placed) (fun _ => .inr rfl)
  have property : CanonicalProperty (trim edit.property) (trim edit.value) :=
    canonicalProperty_of_read positive changed.bindings changed.addresses changed.properties
      (refusal?_eq_none allowed).2 (startsFilled_trim _) valued read inside
  refine ⟨?_, property⟩
  by_cases raw : edit.address.blockType = rawType
  · rw [Address.Readable, if_pos raw] at readable
    rw [Address.Canonical, if_pos raw]
    exact ⟨readable, placed.raw raw⟩
  · obtain ⟨blockType, labels, _⟩ := placed.block raw
    rw [Address.Canonical, if_neg raw]
    refine ⟨blockType, labels, plain.address.target, trimEnd_eq_self (endsFilled_trim _), ?_⟩
    have noGap := noGap_of_read positive changed.bindings changed.addresses
      (fun rule member entry inside => (changed.properties rule member entry inside).elim id
        fun same => by
          rw [(Prod.mk.inj same).1, (Prod.mk.inj same).2]
          exact property) read
    rw [here] at noGap
    exact noGap.resolve_left raw

def Patch.ReadsBack (patch : Patch) : Prop :=
  (Graph.ofSource patch.text).sameRules patch.graph = true

instance : DecidablePred Patch.ReadsBack := fun _ => inferInstanceAs (Decidable (_ = true))

theorem readsBack_iff_alike (distinct : patch.graph.Distinct) :
    patch.ReadsBack ↔ (Graph.ofSource patch.text).Alike patch.graph :=
  sameRules_iff_alike (distinct_ofSource _) distinct

theorem alike_of_unchanged (distinct : graph.Distinct) (same : ¬edit.Changes graph) :
    graph.Alike (edit.applyTo graph) := by
  refine ⟨fun _ => rfl, fun address name => ?_⟩
  rw [property?_applyTo distinct]
  split
  · rename_i here
    rw [here.1, here.2]
    simpa [Edit.Changes, Graph.isChange] using same
  · rfl

theorem property?_patch (distinct : graph.Distinct)
    (accepted : Style.patch n source graph edit = .ok patch) :
    patch.graph.property? edit.address (trim edit.property) = wanted (trim edit.value) := by
  rw [patch_graph accepted, property?_applyTo distinct, if_pos ⟨rfl, rfl⟩]

theorem property?_of_readsBack (distinct : graph.Distinct)
    (accepted : Style.patch n source graph edit = .ok patch) (same : patch.ReadsBack) :
    (Graph.ofSource patch.text).property? edit.address (trim edit.property) =
      wanted (trim edit.value) := by
  have changed : patch.graph.Distinct := by
    rw [patch_graph accepted]
    exact distinct.setProperty _ _ _
  rw [((readsBack_iff_alike changed).mp same).properties, property?_patch distinct accepted]

theorem canonical_of_shown (positive : 0 < n) (canonical : graph.Canonical) (plain : edit.OneLine)
    (accepted : Style.patch n source graph edit = .ok patch)
    (isolated : edit.Changes graph → Isolated n source patch.graph) (present : trim edit.value ≠ [])
    (shown : (Graph.ofSource patch.text).property? edit.address (trim edit.property) =
      wanted (trim edit.value)) : edit.Canonical := by
  obtain ⟨allowed, ⟨same, rfl⟩ | ⟨changes, rfl⟩⟩ := patch_cases accepted
  · have kept : graph.property? edit.address (trim edit.property) = wanted (trim edit.value) := by
      simpa [Edit.Changes, Graph.isChange] using same
    rw [wanted, if_neg present] at kept
    exact canonical_of_property? canonical kept
  · rw [ofSource_writeBlock (plain.applyTo canonical.oneLine) (isolated changes), wanted,
      if_neg present] at shown
    exact canonical_of_property?_read positive canonical plain allowed present shown

theorem readsBack_of_canonical (positive : 0 < n) (canonical : graph.Canonical)
    (described : (Graph.ofSource source).Alike graph) (plain : edit.OneLine)
    (accepted : Style.patch n source graph edit = .ok patch)
    (isolated : edit.Changes graph → Isolated n source patch.graph)
    (written : trim edit.value = [] ∨ edit.Canonical) : patch.ReadsBack := by
  have distinct := canonical.distinct
  have changed : (edit.applyTo graph).Distinct := distinct.setProperty _ _ _
  rw [readsBack_iff_alike (by rw [patch_graph accepted]; exact changed)]
  obtain ⟨_, ⟨same, rfl⟩ | ⟨changes, rfl⟩⟩ := patch_cases accepted
  · exact described.trans (alike_of_unchanged distinct same)
  · rw [ofSource_writeBlock (plain.applyTo canonical.oneLine) (isolated changes)]
    refine alike_ofLines_toLines positive (canonical.setProperty ?_ ?_)
    · exact fun present => (written.resolve_left present).1
    · exact fun present => (written.resolve_left present).2

-- For a canonical graph that its text describes, an isolated edit reads back exactly when it removes
-- a property or is canonical.
theorem readsBack_iff_canonical (positive : 0 < n) (canonical : graph.Canonical)
    (described : (Graph.ofSource source).Alike graph) (plain : edit.OneLine)
    (accepted : Style.patch n source graph edit = .ok patch)
    (isolated : edit.Changes graph → Isolated n source patch.graph) :
    patch.ReadsBack ↔ trim edit.value = [] ∨ edit.Canonical := by
  constructor
  · intro same
    by_cases empty : trim edit.value = []
    · exact .inl empty
    · have shown := property?_of_readsBack canonical.distinct accepted same
      exact .inr (canonical_of_shown positive canonical plain accepted isolated empty shown)
  · exact readsBack_of_canonical positive canonical described plain accepted isolated

theorem shown_iff_canonical (positive : 0 < n) (canonical : graph.Canonical)
    (described : (Graph.ofSource source).Alike graph) (plain : edit.OneLine)
    (accepted : Style.patch n source graph edit = .ok patch)
    (isolated : edit.Changes graph → Isolated n source patch.graph) :
    (Graph.ofSource patch.text).property? edit.address (trim edit.property) =
      wanted (trim edit.value) ↔ trim edit.value = [] ∨ edit.Canonical := by
  constructor
  · intro shown
    by_cases empty : trim edit.value = []
    · exact .inl empty
    · exact .inr (canonical_of_shown positive canonical plain accepted isolated empty shown)
  · intro written
    exact property?_of_readsBack canonical.distinct accepted
      (readsBack_of_canonical positive canonical described plain accepted isolated written)

end BlockMarkup.Style
