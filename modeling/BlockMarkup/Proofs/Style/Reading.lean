import BlockMarkup.Proofs.Style.Canonical

namespace BlockMarkup.Style

structure Graph.Each (V : Text → Text → Prop) (A : Address → Prop) (E : Text → Text → Prop)
    (graph : Graph) : Prop where
  bindings : ∀ found ∈ graph.bindings, V found.name found.value
  addresses : ∀ rule ∈ graph.rules, A rule.address
  properties : ∀ rule ∈ graph.rules, ∀ entry ∈ rule.properties.entries, E entry.1 entry.2

variable {V : Text → Text → Prop} {A : Address → Prop} {E : Text → Text → Prop}
variable {graph : Graph} {address : Address} {name value property : Text}

theorem mem_writeEntry {entries : List (Text × Text)} {entry : Text × Text}
    (member : entry ∈ writeEntry name value entries) : entry = (name, value) ∨ entry ∈ entries := by
  induction entries with
  | nil => exact .inl (List.mem_singleton.mp member)
  | cons first rest ih =>
    rw [writeEntry] at member
    split at member
    · rename_i same
      rcases List.mem_cons.mp member with rfl | later
      · exact .inl (by rw [same])
      · exact .inr (List.mem_cons_of_mem _ later)
    · rcases List.mem_cons.mp member with rfl | later
      · exact .inr (by simp)
      · exact (ih later).imp_right (List.mem_cons_of_mem _)

theorem mem_putIn {rules : List Rule} {rule : Rule}
    (member : rule ∈ putIn address property value rules) :
    rule ∈ rules ∨ rule.address = address ∧ ∀ entry ∈ rule.properties.entries,
      entry = (property, value) ∨
        ∃ old ∈ rules, old.address = address ∧ entry ∈ old.properties.entries := by
  induction rules with
  | nil =>
    rw [putIn, List.mem_singleton] at member
    subst member
    refine .inr ⟨rfl, fun entry inside => .inl ?_⟩
    rcases mem_writeEntry inside with new | old
    · exact new
    · cases old
  | cons first rest ih =>
    rw [putIn] at member
    split at member
    · rename_i here
      rcases List.mem_cons.mp member with rfl | later
      · refine .inr ⟨here, fun entry inside => ?_⟩
        rcases mem_writeEntry inside with new | old
        · exact .inl new
        · exact .inr ⟨first, by simp, here, old⟩
      · exact .inl (List.mem_cons_of_mem _ later)
    · rcases List.mem_cons.mp member with rfl | later
      · exact .inl (by simp)
      · rcases ih later with old | ⟨here, entries⟩
        · exact .inl (List.mem_cons_of_mem _ old)
        · refine .inr ⟨here, fun entry inside => (entries entry inside).imp_right ?_⟩
          rintro ⟨old, present, found⟩
          exact ⟨old, List.mem_cons_of_mem _ present, found⟩

theorem mem_removeFrom {rules : List Rule} {rule : Rule}
    (member : rule ∈ removeFrom address property rules) :
    ∃ old ∈ rules, rule.address = old.address ∧
      ∀ entry ∈ rule.properties.entries, entry ∈ old.properties.entries := by
  induction rules with
  | nil => cases member
  | cons first rest ih =>
    have later : rule ∈ rest → ∃ old ∈ first :: rest, rule.address = old.address ∧
        ∀ entry ∈ rule.properties.entries, entry ∈ old.properties.entries := fun inside =>
      ⟨rule, List.mem_cons_of_mem _ inside, rfl, fun _ => id⟩
    rw [removeFrom] at member
    split at member
    · dsimp only at member
      split at member
      · exact later member
      · rcases List.mem_cons.mp member with rfl | inside
        · exact ⟨first, by simp, rfl, fun entry kept => List.mem_of_mem_filter kept⟩
        · exact later inside
    · rcases List.mem_cons.mp member with rfl | inside
      · exact ⟨rule, by simp, rfl, fun _ => id⟩
      · obtain ⟨old, present, found⟩ := ih inside
        exact ⟨old, List.mem_cons_of_mem _ present, found⟩

theorem mem_putVariable {bindings : List Variable} {found : Variable}
    (member : found ∈ putVariable name value bindings) :
    found = ⟨name, value⟩ ∨ found ∈ bindings := by
  induction bindings with
  | nil => exact .inl (List.mem_singleton.mp member)
  | cons first rest ih =>
    rw [putVariable] at member
    split at member
    · rename_i same
      rcases List.mem_cons.mp member with rfl | later
      · exact .inl (by rw [same])
      · exact .inr (List.mem_cons_of_mem _ later)
    · rcases List.mem_cons.mp member with rfl | later
      · exact .inr (by simp)
      · exact (ih later).imp_right (List.mem_cons_of_mem _)

namespace Graph.Each

theorem empty : Graph.empty.Each V A E :=
  ⟨fun _ member => absurd member (by simp [Graph.empty]),
    fun _ member => absurd member (by simp [Graph.empty]),
    fun _ member => absurd member (by simp [Graph.empty])⟩

theorem setVariable (each : graph.Each V A E) (new : V name value) :
    (graph.setVariable name value).Each V A E := by
  refine ⟨?_, each.addresses, each.properties⟩
  intro found member
  simp only [Graph.setVariable] at member
  split at member
  · exact each.bindings found (List.mem_of_mem_eraseP member)
  · rcases mem_putVariable member with rfl | old
    · exact new
    · exact each.bindings found old

theorem setProperty (each : graph.Each V A E) (here : value ≠ [] → A address)
    (new : value ≠ [] → E property value) :
    (graph.setProperty address property value).Each V A E := by
  by_cases empty : value = []
  · refine ⟨each.bindings, ?_, ?_⟩
    all_goals
      simp only [Graph.setProperty, if_pos empty]
      intro rule member
      obtain ⟨old, present, same, entries⟩ := mem_removeFrom member
    · exact same ▸ each.addresses old present
    · exact fun entry inside => each.properties old present entry (entries entry inside)
  · refine ⟨each.bindings, ?_, ?_⟩
    all_goals
      simp only [Graph.setProperty, if_neg empty]
      intro rule member
      rcases mem_putIn member with old | ⟨same, entries⟩
    · exact each.addresses rule old
    · exact same ▸ here empty
    · exact each.properties rule old
    · intro entry inside
      rcases entries entry inside with rfl | ⟨old, present, _, found⟩
      · exact new empty
      · exact each.properties old present entry found

end Graph.Each

-- What the pieces of a line must meet; a nested selector must keep what holds of the context.
def StyleLine.Gives (V : Text → Text → Prop) (A : Address → Prop) (E : Text → Text → Prop)
    (C : Context → Prop) : StyleLine → Prop
  | .skipped | .unknown => True
  | .block blockType suffix => C (.ofSelector blockType suffix)
  | .variable name value => V name value
  | .compact selector declarations =>
    A ((compactAddress? selector).getD ⟨rawType, selector, none⟩) ∧
      ∀ declaration ∈ compactDeclarations declarations, E declaration.1 declaration.2
  | .raw selector => C (.ofRaw selector)
  | .nested indent selector => ∀ context, C context → C (context.enter indent selector)
  | .declaration property value => E property value

structure Reading.Each (V : Text → Text → Prop) (A : Address → Prop) (E : Text → Text → Prop)
    (C : Context → Prop) (reading : Reading) : Prop where
  graph : reading.graph.Each V A E
  context : ∀ context ∈ reading.context, C context

variable {C : Context → Prop} {reading : Reading} {lines : List Text}

theorem Reading.Each.read (each : reading.Each V A E C) (located : ∀ context, C context → A context.address)
    {line : StyleLine} (gives : line.Gives V A E C) : (reading.read line).Each V A E C := by
  obtain ⟨ofGraph, ofContext⟩ := each
  cases line with
  | skipped => exact ⟨ofGraph, ofContext⟩
  | unknown => exact ⟨ofGraph, ofContext⟩
  | block blockType suffix =>
    refine ⟨ofGraph, ?_⟩
    intro _ member
    cases member
    exact gives
  | «variable» name value =>
    refine ⟨ofGraph.setVariable gives, ?_⟩
    intro _ member
    cases member
  | compact selector declarations =>
    obtain ⟨here, all⟩ := gives
    refine ⟨?_, fun _ opened => by cases opened⟩
    simp only [Reading.read]
    generalize compactDeclarations declarations = pairs at all ⊢
    -- The address is the same for all declarations, so only the graph changes on the way.
    suffices step : ∀ graph : Graph, graph.Each V A E →
        (pairs.foldl (fun graph declaration => graph.setProperty
          ((compactAddress? selector).getD ⟨rawType, selector, none⟩) declaration.1 declaration.2)
          graph).Each V A E from step _ ofGraph
    induction pairs with
    | nil => exact fun _ => id
    | cons pair pairs ih =>
      intro graph each
      exact ih (fun later member => all later (by simp [member])) _
        (each.setProperty (fun _ => here) fun _ => all pair (by simp))
  | raw selector =>
    refine ⟨ofGraph, ?_⟩
    intro _ member
    cases member
    exact gives
  | nested indent selector =>
    refine ⟨ofGraph, ?_⟩
    intro context found
    simp only [Reading.read, Option.mem_def, Option.map_eq_some_iff] at found
    obtain ⟨before, held, rfl⟩ := found
    exact gives before (ofContext before held)
  | declaration property value =>
    simp only [Reading.read]
    split
    · exact ⟨ofGraph, ofContext⟩
    · rename_i context held
      exact ⟨ofGraph.setProperty (fun _ => located context (ofContext context held)) fun _ => gives,
        ofContext⟩

theorem each_foldl (located : ∀ context, C context → A context.address)
    (gives : ∀ line ∈ lines, (StyleLine.classify line).Gives V A E C) :
    ∀ reading : Reading, reading.Each V A E C → (lines.foldl Reading.next reading).Each V A E C := by
  induction lines with
  | nil => exact fun _ => id
  | cons line lines ih =>
    intro reading each
    exact ih (fun later member => gives later (by simp [member])) _
      (each.read located (gives line (by simp)))

theorem each_ofLines (located : ∀ context, C context → A context.address)
    (gives : ∀ line ∈ lines, (StyleLine.classify line).Gives V A E C) :
    (Graph.ofLines lines).Each V A E :=
  (each_foldl located gives .start ⟨.empty, by simp [Reading.start]⟩).graph

theorem trim_subset (t : Text) : trim t ⊆ t := fun _ member => mem_of_mem_trim member

theorem trimStart_subset (t : Text) : trimStart t ⊆ t := (suffix_trimStart t).subset

theorem trimEnd_subset (t : Text) : trimEnd t ⊆ t := (prefix_trimEnd t).subset

theorem dropReturn_subset (t : Text) : dropReturn t ⊆ t := by
  intro c member
  rw [← dropReturn_append_finalReturn t]
  exact List.mem_append_left _ member

theorem takeWhile_subset (p : Char → Bool) (t : Text) : t.takeWhile p ⊆ t :=
  (List.takeWhile_prefix p).subset

theorem dropWhile_subset (p : Char → Bool) (t : Text) : t.dropWhile p ⊆ t :=
  (List.dropWhile_suffix p).subset

theorem sublist_intercalate {mark : Char} {piece : Text} {pieces : List Text}
    (member : piece ∈ pieces) : piece.Sublist ([mark].intercalate pieces) := by
  induction pieces with
  | nil => cases member
  | cons first rest ih =>
    cases rest with
    | nil =>
      rw [List.mem_singleton.mp member, List.intercalate_singleton]
    | cons second rest =>
      rw [List.intercalate_cons_cons, List.append_assoc]
      rcases List.mem_cons.mp member with rfl | later
      · exact List.sublist_append_left _ _
      · exact List.sublist_append_of_sublist_right (List.sublist_append_of_sublist_right (ih later))

theorem sublist_of_mem_splitOn {mark : Char} {t piece : Text} (member : piece ∈ t.splitOn mark) :
    piece.Sublist t := by
  have joined : piece.Sublist ([mark].intercalate (t.splitOn mark)) := sublist_intercalate member
  rwa [List.intercalate_splitOn] at joined

def StyleLine.Within (t : Text) : StyleLine → Prop
  | .skipped | .unknown => True
  | .block blockType suffix => blockType ⊆ t ∧ ∀ text ∈ suffix, text ⊆ t
  | .variable name value => name ⊆ t ∧ value ⊆ t
  | .compact selector declarations => selector ⊆ t ∧ declarations ⊆ t
  | .raw selector => selector ⊆ t
  | .nested _ selector => selector ⊆ t
  | .declaration property value => property ⊆ t ∧ value ⊆ t

theorem takeBlockType?_eq_some {t blockType rest : Text}
    (found : takeBlockType? t = some (blockType, rest)) :
    t = blockType ++ rest ∧ isBlockType blockType = true := by
  simp only [takeBlockType?] at found
  split at found
  · rename_i valid
    obtain ⟨rfl, rfl⟩ := Prod.mk.inj (Option.some.inj found)
    exact ⟨List.takeWhile_append_dropWhile.symm, valid⟩
  · cases found

theorem blockSelector?_eq_some {t blockType : Text} {suffix : Option Text}
    (found : blockSelector? t = some (blockType, suffix)) :
    isBlockType blockType = true ∧ blockType ⊆ t ∧
      ∀ text ∈ suffix, text ⊆ t ∧ text ≠ [] ∧ ∀ c ∈ text, isSuffixChar c = true := by
  unfold blockSelector? at found
  split at found
  · cases found
  rename_i name rest taken
  obtain ⟨rfl, valid⟩ := takeBlockType?_eq_some taken
  split at found
  · obtain ⟨rfl, rfl⟩ := Prod.mk.inj (Option.some.inj found)
    exact ⟨valid, List.subset_append_left _ _, by simp⟩
  split at found
  · rename_i more colon
    dsimp only at found
    split at found
    · rename_i passes
      obtain ⟨rfl, rfl⟩ := Prod.mk.inj (Option.some.inj found)
      refine ⟨valid, List.subset_append_left _ _, ?_⟩
      intro _ member
      cases member
      simp only [Bool.and_eq_true, Bool.not_eq_true', List.all_eq_true] at passes
      refine ⟨?_, by simpa using passes.1, passes.2⟩
      apply List.Subset.trans (trimStart_subset _)
      have inRest : ':' :: more ⊆ rest := colon ▸ trimStart_subset rest
      exact fun c member => List.mem_append_right _ (inRest (List.mem_cons_of_mem _ member))
    · cases found
  · cases found

theorem variableParts?_within {t name value : Text}
    (found : StyleLine.variableParts? t = some (name, value)) : name ⊆ t ∧ value ⊆ t := by
  unfold StyleLine.variableParts? at found
  split at found
  · cases found
  rename_i c rest
  split at found
  · split at found
    · rename_i d text colon
      split at found
      · obtain ⟨rfl, rfl⟩ := Prod.mk.inj (Option.some.inj found)
        refine ⟨List.cons_subset_cons _ (takeWhile_subset _ _), ?_⟩
        have inRest : ':' :: d :: text ⊆ rest := colon ▸ dropWhile_subset _ rest
        intro e member
        exact List.mem_cons_of_mem _ (inRest (by simp [trim_subset _ member]))
      · cases found
    · cases found
  · cases found

theorem dropSemicolon_subset (t : Text) : StyleLine.dropSemicolon t ⊆ t := by
  unfold StyleLine.dropSemicolon
  split
  · exact (List.dropLast_prefix t).subset
  · exact List.Subset.refl t

theorem declarationParts?_eq_some {t property value : Text}
    (found : StyleLine.declarationParts? t = some (property, value)) :
    ∃ blanks text, t = property ++ (blanks ++ ':' :: text) ∧
      (∀ c ∈ blanks, isBlank c = true) ∧ IsPropertyName property ∧
      value = trim (StyleLine.dropSemicolon (trimStart text)) ∧ value ≠ [] := by
  unfold StyleLine.declarationParts? at found
  split at found
  · cases found
  rename_i c rest
  split at found
  · rename_i start
    split at found
    · rename_i text colon
      dsimp only at found
      split at found
      · cases found
      · rename_i filled
        obtain ⟨rfl, rfl⟩ := Prod.mk.inj (Option.some.inj found)
        have split : (rest.dropWhile isNameChar).takeWhile isBlank ++ ':' :: text =
            rest.dropWhile isNameChar := by
          rw [← colon]
          exact List.takeWhile_append_dropWhile
        refine ⟨(rest.dropWhile isNameChar).takeWhile isBlank, text, ?_, ?_,
          ⟨c, rest.takeWhile isNameChar, rfl, start, ?_⟩, rfl, ?_⟩
        · rw [split, List.cons_append, List.takeWhile_append_dropWhile]
        · exact fun d member => List.mem_takeWhile_imp member
        · exact fun d member => List.mem_takeWhile_imp member
        · simpa using filled
    · cases found
  · cases found

theorem declarationParts?_within {t property value : Text}
    (found : StyleLine.declarationParts? t = some (property, value)) :
    property ⊆ t ∧ value ⊆ t := by
  obtain ⟨blanks, text, rfl, _, _, rfl, _⟩ := declarationParts?_eq_some found
  refine ⟨List.subset_append_left _ _, ?_⟩
  intro c member
  have inText : c ∈ text := trimStart_subset _ (dropSemicolon_subset _ (trim_subset _ member))
  simp [inText]

theorem compactParts?_within {t selector declarations : Text}
    (found : StyleLine.compactParts? t = some (selector, declarations)) :
    selector ⊆ t ∧ declarations ⊆ t ∧ '{' ∉ selector ∧ '{' ∈ t := by
  unfold StyleLine.compactParts? at found
  split at found
  · cases found
  rename_i before after split
  obtain ⟨rfl, noBrace⟩ := splitAtFirst?_eq_some_iff.mp split
  dsimp only at found
  split at found
  · obtain ⟨rfl, rfl⟩ := Prod.mk.inj (Option.some.inj found)
    refine ⟨?_, ?_, fun inside => noBrace (trim_subset _ inside), by simp⟩
    · exact List.Subset.trans (trim_subset _) (List.subset_append_left _ _)
    · intro c member
      have inAfter : c ∈ after :=
        trimEnd_subset _ ((List.dropLast_prefix _).subset (trim_subset _ member))
      simp [inAfter]
  · cases found

theorem prefix_rawSelector (t : Text) : StyleLine.rawSelector t <+: t :=
  (prefix_trimEnd _).trans (List.rdropWhile_prefix (fun c => c == '{') t)

theorem rawSelector_subset (t : Text) : StyleLine.rawSelector t ⊆ t := (prefix_rawSelector t).subset

-- The forms that a line can have, by what stands on it.
inductive StyleLine.Form (content : Text) : StyleLine → Prop where
  | skipped : Form content .skipped
  | compact {selector declarations : Text}
      (parts : compactParts? content = some (selector, declarations)) :
      Form content (.compact selector declarations)
  | block {blockType : Text} {suffix : Option Text}
      (parts : blockSelector? content = some (blockType, suffix)) :
      Form content (.block blockType suffix)
  | binding {name value : Text} (parts : variableParts? content = some (name, value)) :
      Form content (.variable name value)
  | raw (noBraces : compactParts? content = none) (noBlock : blockSelector? content = none) :
      Form content (.raw (rawSelector content))
  | nested {indent : Nat} : Form content (.nested indent content)
  | declaration {property value : Text}
      (parts : declarationParts? content = some (property, value)) :
      Form content (.declaration property value)
  | unknown : Form content .unknown

theorem form_atMargin (content : Text) : (StyleLine.atMargin content).Form content := by
  unfold StyleLine.atMargin
  split
  · rename_i parts
    exact .compact parts
  rename_i noBraces
  split
  · rename_i parts
    exact .block parts
  rename_i noBlock
  split
  · rename_i parts
    exact .binding parts
  · exact .raw noBraces noBlock

theorem form_indented (indent : Nat) (content : Text) :
    (StyleLine.indented indent content).Form content := by
  unfold StyleLine.indented
  split
  · exact .nested
  split
  · rename_i parts
    exact .declaration parts
  · exact .unknown

theorem form_classify (line : Text) : (StyleLine.classify line).Form (trim (dropReturn line)) := by
  simp only [StyleLine.classify]
  split
  · exact .skipped
  split
  · exact form_atMargin _
  · exact form_indented _ _

theorem StyleLine.Form.within {content : Text} {kind : StyleLine} (form : kind.Form content) :
    kind.Within content := by
  cases form with
  | skipped => trivial
  | compact parts =>
    obtain ⟨selector, declarations, _⟩ := compactParts?_within parts
    exact ⟨selector, declarations⟩
  | block parts =>
    obtain ⟨_, blockType, suffix⟩ := blockSelector?_eq_some parts
    exact ⟨blockType, fun text member => (suffix text member).1⟩
  | binding parts => exact variableParts?_within parts
  | raw _ _ => exact rawSelector_subset _
  | nested => exact List.Subset.refl _
  | declaration parts => exact declarationParts?_within parts
  | unknown => trivial

theorem StyleLine.Within.mono {t u : Text} {kind : StyleLine} (within : kind.Within t)
    (subset : t ⊆ u) : kind.Within u := by
  cases kind with
  | skipped => trivial
  | unknown => trivial
  | block blockType suffix =>
    exact ⟨List.Subset.trans within.1 subset,
      fun text member => List.Subset.trans (within.2 text member) subset⟩
  | «variable» name value =>
    exact ⟨List.Subset.trans within.1 subset, List.Subset.trans within.2 subset⟩
  | compact selector declarations =>
    exact ⟨List.Subset.trans within.1 subset, List.Subset.trans within.2 subset⟩
  | raw selector => exact List.Subset.trans within subset
  | nested indent selector => exact List.Subset.trans within subset
  | declaration property value =>
    exact ⟨List.Subset.trans within.1 subset, List.Subset.trans within.2 subset⟩

theorem within_classify (line : Text) : (StyleLine.classify line).Within line :=
  (form_classify line).within.mono (List.Subset.trans (trim_subset _) (dropReturn_subset _))

theorem enter_block (indent : Nat) (selector blockType target : Text) (label : Option Text)
    (opened : Option (Nat × Text)) :
    (∃ rest, selector = '>' :: rest ∧
      (Context.block blockType label target opened).enter indent selector =
        .block blockType label ('>' :: trimStart rest) none) ∨
    (∃ pseudo, selector = ':' :: pseudo ∧
      (Context.block blockType label target opened).enter indent selector =
        .block blockType label (Context.pseudoOwner indent opened ++ ':' :: pseudo) opened) ∨
    (∃ name, selector = '.' :: name ∧
      (Context.block blockType label target opened).enter indent selector =
        .block blockType label name (if name.contains ':' then none else some (indent, name))) ∨
    (Context.block blockType label target opened).enter indent selector =
      .block blockType label target opened := by
  rcases selector with _ | ⟨mark, rest⟩
  · exact .inr (.inr (.inr rfl))
  by_cases angle : mark = '>'
  · exact .inl ⟨rest, by rw [angle], by rw [angle, Context.enter]⟩
  by_cases colon : mark = ':'
  · exact .inr (.inl ⟨rest, by rw [colon], by rw [colon, Context.enter]⟩)
  by_cases dot : mark = '.'
  · exact .inr (.inr (.inl ⟨rest, by rw [dot], by rw [dot, Context.enter]⟩))
  · exact .inr (.inr (.inr (by simp [Context.enter, angle, colon, dot])))

theorem pseudoOwner_cases (indent : Nat) (opened : Option (Nat × Text)) :
    Context.pseudoOwner indent opened = selfTarget ∨
      ∃ part ∈ opened, Context.pseudoOwner indent opened = part.2 := by
  cases opened with
  | none => exact .inl rfl
  | some part =>
    rw [Context.pseudoOwner]
    split
    · exact .inr ⟨part, rfl, rfl⟩
    · exact .inl rfl

theorem afterMark_pieces (mark : Char) (allowed : Char → Bool) (t : Text) :
    (∀ text ∈ (afterMark mark allowed t).1,
      text ⊆ t ∧ text ≠ [] ∧ ∀ c ∈ text, allowed c = true) ∧
      (afterMark mark allowed t).2 ⊆ t := by
  unfold afterMark
  split
  · simp
  · rename_i c rest
    split
    · rename_i marked
      simp only [Bool.and_eq_true, Bool.not_eq_true'] at marked
      refine ⟨?_, List.Subset.trans (dropWhile_subset _ _) (List.subset_cons_self _ _)⟩
      intro _ member
      cases member
      refine ⟨List.Subset.trans (takeWhile_subset _ _) (List.subset_cons_self _ _), ?_, ?_⟩
      · simpa using marked.2
      · exact fun d member => List.mem_takeWhile_imp member
    · exact ⟨by simp, List.Subset.refl _⟩

-- The pieces after a label, said as one: they have no characters but those of the selector.
structure SelectorTail.Within (t : Text) (tail : SelectorTail) : Prop where
  part : ∀ text ∈ tail.part, text ⊆ t ∧ ∀ c ∈ text, isNameChar c = true
  pseudo : ∀ text ∈ tail.pseudo, text ⊆ t
  descendant : ∀ text ∈ tail.descendant, text ⊆ t ∧ trim text = text

theorem selectorTail?_within {t : Text} {tail : SelectorTail} (found : selectorTail? t = some tail) :
    tail.Within t := by
  have part := afterMark_pieces '.' isNameChar t
  have pseudo := afterMark_pieces ':' isPseudoChar (afterMark '.' isNameChar t).2
  have parts : ∀ text ∈ (afterMark '.' isNameChar t).1,
      text ⊆ t ∧ ∀ c ∈ text, isNameChar c = true := fun text member =>
    ⟨(part.1 text member).1, (part.1 text member).2.2⟩
  have pseudos : ∀ text ∈ (afterMark ':' isPseudoChar (afterMark '.' isNameChar t).2).1, text ⊆ t :=
    fun text member => List.Subset.trans (pseudo.1 text member).1 part.2
  simp only [selectorTail?] at found
  split at found
  · cases found
    exact ⟨parts, pseudos, by simp⟩
  split at found
  · rename_i rest angle
    split at found
    · cases found
    · cases found
      refine ⟨parts, pseudos, ?_⟩
      intro _ member
      cases member
      refine ⟨?_, trim_trim rest⟩
      have inTail := trimStart_subset (afterMark ':' isPseudoChar (afterMark '.' isNameChar t).2).2
      rw [angle] at inTail
      intro c member
      exact part.2 (pseudo.2 (inTail (List.mem_cons_of_mem _ (trim_subset _ member))))
  · cases found

theorem labelAndTail?_within {t : Text} {label : Option Text} {tail : SelectorTail}
    (found : labelAndTail? t = some (label, tail)) :
    (∀ text ∈ label, text ⊆ t ∧ text ≠ [] ∧ ∀ c ∈ text, isNameChar c = true) ∧ tail.Within t := by
  have pieces := afterMark_pieces ':' isNameChar t
  simp only [labelAndTail?] at found
  split at found
  · rename_i read
    obtain ⟨rfl, rfl⟩ := Prod.mk.inj (Option.some.inj found)
    obtain ⟨part, pseudo, descendant⟩ := selectorTail?_within read
    refine ⟨pieces.1, ?_, ?_, ?_⟩
    · exact fun text member => ⟨List.Subset.trans (part text member).1 pieces.2, (part text member).2⟩
    · exact fun text member => List.Subset.trans (pseudo text member) pieces.2
    · exact fun text member =>
        ⟨List.Subset.trans (descendant text member).1 pieces.2, (descendant text member).2⟩
  split at found
  · obtain ⟨tail, read, same⟩ := Option.map_eq_some_iff.mp found
    obtain ⟨rfl, rfl⟩ := Prod.mk.inj same
    exact ⟨by simp, selectorTail?_within read⟩
  · cases found

theorem target?_within {t target : Text} {tail : SelectorTail} (within : tail.Within t)
    (found : tail.target? = some target) : ∀ c ∈ target, c ∈ t ∨ c ∈ ':' :: '>' :: selfTarget := by
  obtain ⟨parts, pseudos, descendants⟩ := within
  unfold SelectorTail.target? at found
  split at found
  · cases found
    exact fun c member => .inr (by simp [member])
  · rename_i rest
    cases found
    intro c member
    rcases List.mem_cons.mp member with rfl | inside
    · exact .inr (by simp)
    · exact .inl ((descendants rest rfl).1 inside)
  · rename_i pseudo
    cases found
    intro c member
    rcases List.mem_append.mp member with root | later
    · exact .inr (by simp [root])
    rcases List.mem_cons.mp later with rfl | inside
    · exact .inr (by simp)
    · exact .inl (pseudos pseudo rfl inside)
  · rename_i part
    cases found
    exact fun c member => .inl ((parts target rfl).1 member)
  · rename_i part pseudo
    cases found
    intro c member
    rcases List.mem_append.mp member with inPart | later
    · exact .inl ((parts part rfl).1 inPart)
    rcases List.mem_cons.mp later with rfl | inside
    · exact .inr (by simp)
    · exact .inl (pseudos pseudo rfl inside)
  · cases found

theorem compactAddress?_eq_some {selector : Text} {address : Address}
    (found : compactAddress? selector = some address) :
    isBlockType address.blockType = true ∧ address.blockType ⊆ selector ∧
      (∀ label ∈ address.label, IsLabel label ∧ label ⊆ selector) ∧
      ∀ c ∈ address.target, c ∈ selector ∨ c ∈ ':' :: '>' :: selfTarget := by
  unfold compactAddress? at found
  split at found
  · cases found
  rename_i blockType rest taken
  obtain ⟨rfl, valid⟩ := takeBlockType?_eq_some taken
  have type : blockType ⊆ blockType ++ rest := List.subset_append_left _ _
  have back : ∀ c, c ∈ rest → c ∈ blockType ++ rest := fun c => List.mem_append_right _
  split at found
  · cases found
  rename_i label tail read
  obtain ⟨labels, within⟩ := labelAndTail?_within read
  split at found
  · split at found
    · obtain ⟨target, named, rfl⟩ := Option.map_eq_some_iff.mp found
      have pseudo : SelectorTail.Within rest ⟨none, label, none⟩ :=
        ⟨by simp, fun text member => (labels text member).1, by simp⟩
      exact ⟨valid, type, by simp,
        fun c member => (target?_within pseudo named c member).imp_left (back c)⟩
    · cases found
  · rename_i noPseudo
    obtain ⟨target, named, rfl⟩ := Option.map_eq_some_iff.mp found
    refine ⟨valid, type, ?_,
      fun c member => (target?_within within named c member).imp_left (back c)⟩
    intro text member
    obtain ⟨inRest, filled, chars⟩ := labels text member
    refine ⟨⟨filled, ?_, ?_⟩, fun c inside => back c (inRest inside)⟩
    · intro c inside
      simp [isSuffixChar, chars c inside]
    · rw [show label = some text from member] at noPseudo
      simpa using noPseudo

theorem compactDeclarations_sublist {declarations : Text} {declaration : Text × Text}
    (member : declaration ∈ compactDeclarations declarations) :
    (declaration.1 ++ ':' :: declaration.2).Sublist declarations := by
  obtain ⟨piece, inside, kept⟩ := List.mem_filterMap.mp member
  have whole := sublist_of_mem_splitOn inside
  split at kept
  · cases kept
  · rename_i before after split
    obtain ⟨rfl, _⟩ := splitAtFirst?_eq_some_iff.mp split
    split at kept
    · cases kept
    · cases kept
      exact ((trim_sublist before).append ((trim_sublist after).cons_cons ':')).trans whole

theorem compactDeclarations_within {declarations : Text} {declaration : Text × Text}
    (member : declaration ∈ compactDeclarations declarations) :
    declaration.1 ⊆ declarations ∧ declaration.2 ⊆ declarations := by
  have whole := (compactDeclarations_sublist member).subset
  exact ⟨fun c found => whole (List.mem_append_left _ found),
    fun c found => whole (List.mem_append_right _ (List.mem_cons_of_mem _ found))⟩

-- A rule that is read has a proper block type and label, unless it is a kept selector.
def Address.Readable (address : Address) : Prop :=
  if address.blockType = rawType then address.label = none
  else isBlockType address.blockType = true ∧ ∀ label ∈ address.label, IsLabel label

theorem ne_rawType {blockType : Text} (valid : isBlockType blockType = true) :
    blockType ≠ rawType := by
  rintro rfl
  exact absurd valid (by decide)

theorem readable_of_blockType {blockType target : Text} {label : Option Text}
    (valid : isBlockType blockType = true) (labels : ∀ text ∈ label, IsLabel text) :
    (Address.mk blockType target label).Readable := by
  rw [Address.Readable, if_neg (ne_rawType valid)]
  exact ⟨valid, labels⟩

theorem readable_raw (target : Text) : (Address.mk rawType target none).Readable := by
  rw [Address.Readable, if_pos rfl]

theorem enter_scope (context : Context) (indent : Nat) (selector : Text) :
    (context.enter indent selector).address.blockType = context.address.blockType ∧
      (context.enter indent selector).address.label = context.address.label := by
  cases context with
  | raw base target =>
    rw [Context.enter]
    split <;> exact ⟨rfl, rfl⟩
  | block blockType label target opened =>
    rcases enter_block indent selector blockType target label opened with
      ⟨_, _, entered⟩ | ⟨_, _, entered⟩ | ⟨_, _, entered⟩ | entered
    all_goals
      rw [entered]
      exact ⟨rfl, rfl⟩

theorem ofSelector_readable {content blockType : Text} {suffix : Option Text}
    (parts : blockSelector? content = some (blockType, suffix)) :
    (Context.ofSelector blockType suffix).address.Readable := by
  obtain ⟨valid, _, suffixes⟩ := blockSelector?_eq_some parts
  unfold Context.ofSelector suffixScope
  cases suffix with
  | none => exact readable_of_blockType valid (by simp)
  | some text =>
    obtain ⟨_, filled, chars⟩ := suffixes text rfl
    dsimp only
    split
    · exact readable_of_blockType valid (by simp)
    · rename_i noPseudo
      apply readable_of_blockType valid
      intro _ member
      cases member
      exact ⟨filled, chars, by simpa using noPseudo⟩

theorem compact_readable (selector : Text) :
    ((compactAddress? selector).getD ⟨rawType, selector, none⟩).Readable := by
  cases found : compactAddress? selector with
  | none => exact readable_raw selector
  | some address =>
    obtain ⟨valid, _, labels, _⟩ := compactAddress?_eq_some found
    exact readable_of_blockType valid fun label member => (labels label member).1

theorem readable_ofLines (lines : List Text) :
    ∀ rule ∈ (Graph.ofLines lines).rules, rule.address.Readable := by
  refine (each_ofLines (V := fun _ _ => True) (A := Address.Readable) (E := fun _ _ => True)
    (C := fun context => context.address.Readable) (fun _ => id) ?_).addresses
  intro line _
  have form := form_classify line
  generalize StyleLine.classify line = kind at form
  cases form with
  | skipped => trivial
  | unknown => trivial
  | compact _ => exact ⟨compact_readable _, fun _ _ => trivial⟩
  | block parts => exact ofSelector_readable parts
  | binding _ => trivial
  | raw _ _ => exact readable_raw _
  | nested =>
    intro context readable
    obtain ⟨blockType, label⟩ := enter_scope context _ _
    rw [Address.Readable, blockType, label]
    exact readable
  | declaration _ => trivial

-- What follows the angle of a descendant starts with no blank.
def NoGap (target : Text) : Prop := ∀ rest, target = '>' :: rest → trimStart rest = rest

theorem noGap_of_head {target : Text} (noAngle : target.head? ≠ some '>') : NoGap target := by
  rintro rest rfl
  exact absurd rfl noAngle

theorem noGap_pseudo {owner pseudo : Text} (noAngle : owner.head? ≠ some '>') :
    NoGap (owner ++ ':' :: pseudo) := by
  apply noGap_of_head
  cases owner with
  | nil => simp
  | cons c rest => simpa using noAngle

theorem noAngle_of_names {name : Text} (chars : ∀ c ∈ name, isNameChar c = true) :
    name.head? ≠ some '>' := by
  intro first
  exact absurd (chars '>' (List.mem_of_mem_head? first)) (by decide)

theorem selfTarget_noAngle : selfTarget.head? ≠ some '>' := by decide

theorem target?_noGap {t target : Text} {tail : SelectorTail} (within : tail.Within t)
    (found : tail.target? = some target) : NoGap target := by
  obtain ⟨parts, pseudos, descendants⟩ := within
  unfold SelectorTail.target? at found
  split at found
  · cases found
    exact noGap_of_head selfTarget_noAngle
  · rename_i rest
    cases found
    intro _ member
    cases member
    have trimmed := (descendants rest rfl).2
    exact trimStart_eq_self (trimmed ▸ startsFilled_trim rest)
  · cases found
    exact noGap_pseudo selfTarget_noAngle
  · cases found
    exact noGap_of_head (noAngle_of_names (parts target rfl).2)
  · rename_i part pseudo
    cases found
    exact noGap_pseudo (noAngle_of_names (parts part rfl).2)
  · cases found

theorem compact_noGap {selector : Text} {address : Address}
    (found : compactAddress? selector = some address) : NoGap address.target := by
  unfold compactAddress? at found
  split at found
  · cases found
  split at found
  · cases found
  rename_i label tail read
  obtain ⟨labels, within⟩ := labelAndTail?_within read
  split at found
  · split at found
    · obtain ⟨target, named, rfl⟩ := Option.map_eq_some_iff.mp found
      have alone : SelectorTail.Within _ ⟨none, label, none⟩ :=
        ⟨by simp, fun text member => (labels text member).1, by simp⟩
      exact target?_noGap alone named
    · cases found
  · obtain ⟨target, named, rfl⟩ := Option.map_eq_some_iff.mp found
    exact target?_noGap within named

def Context.NoGap : Context → Prop
  | .block _ _ target opened => Style.NoGap target ∧ ∀ part ∈ opened, part.2.head? ≠ some '>'
  | .raw _ _ => True

theorem Context.NoGap.ofSelector (blockType : Text) (suffix : Option Text) :
    (Context.ofSelector blockType suffix).NoGap := by
  unfold Context.ofSelector suffixScope
  cases suffix with
  | none => exact ⟨noGap_of_head selfTarget_noAngle, by simp⟩
  | some text =>
    dsimp only
    split
    · exact ⟨noGap_pseudo selfTarget_noAngle, by simp⟩
    · exact ⟨noGap_of_head selfTarget_noAngle, by simp⟩

theorem Context.NoGap.enter {context : Context} {indent : Nat} {selector : Text}
    (noGap : context.NoGap) (named : ∀ name, selector = '.' :: name → name.head? ≠ some '>') :
    (context.enter indent selector).NoGap := by
  cases context with
  | raw base target =>
    rw [Context.enter]
    split
    · trivial
    · trivial
  | block blockType label target opened =>
    obtain ⟨before, owners⟩ := noGap
    rcases enter_block indent selector blockType target label opened with
      ⟨rest, rfl, entered⟩ | ⟨pseudo, rfl, entered⟩ | ⟨name, rfl, entered⟩ | entered
    all_goals rw [entered]
    · refine ⟨?_, by simp⟩
      intro _ member
      cases member
      exact trimStart_eq_self (startsFilled_trimStart rest)
    · refine ⟨noGap_pseudo ?_, owners⟩
      rcases pseudoOwner_cases indent opened with root | ⟨part, opens, same⟩
      · rw [root]
        exact selfTarget_noAngle
      · rw [same]
        exact owners part opens
    · have noAngle := named name rfl
      refine ⟨noGap_of_head noAngle, ?_⟩
      intro part opens
      split at opens
      · cases opens
      · cases opens
        exact noAngle
    · exact ⟨before, owners⟩

-- Only the name of a part can start with an angle.
theorem noGap_ofLines {lines : List Text}
    (parts : ∀ line ∈ lines, ∀ indent name,
      StyleLine.classify line = .nested indent ('.' :: name) → name.head? ≠ some '>') :
    ∀ rule ∈ (Graph.ofLines lines).rules,
      rule.address.blockType = rawType ∨ NoGap rule.address.target := by
  refine (each_ofLines (V := fun _ _ => True)
    (A := fun address => address.blockType = rawType ∨ NoGap address.target)
    (E := fun _ _ => True) (C := Context.NoGap) ?_ ?_).addresses
  · intro context noGap
    cases context with
    | block blockType label target opened => exact .inr noGap.1
    | raw base target => exact .inl rfl
  intro line member
  cases kind : StyleLine.classify line with
  | skipped => trivial
  | unknown => trivial
  | «variable» _ _ => trivial
  | declaration _ _ => trivial
  | compact selector declarations =>
    refine ⟨?_, fun _ _ => trivial⟩
    cases found : compactAddress? selector with
    | none => exact .inl rfl
    | some address => exact .inr (compact_noGap found)
  | block blockType suffix => exact .ofSelector blockType suffix
  | raw selector => trivial
  | nested indent selector =>
    intro context noGap
    refine noGap.enter ?_
    intro name same
    exact parts line member indent name (same ▸ kind)

end BlockMarkup.Style
