import BlockMarkup.Proofs.Style.ReadBack
import BlockMarkup.Session

namespace BlockMarkup

def Block.header (block : Block) : Header := ⟨block.startLine, block.blockType, block.label⟩

theorem trimmed_of_locate? {source : Text} {line : Nat} {block : Block}
    (found : Block.locate? source line = some block) :
    block.header.Trimmed := by
  unfold Block.locate? at found
  split at found
  · cases found
  · dsimp only at found
    split at found
    · cases found
    · rename_i header above
      split at found
      · cases found
      · cases found
        exact trimmed_of_mem_headersFrom (List.mem_of_getLast? above)

def Operation.OneLine : Operation → Prop
  | .applyStyle edit => edit.OneLine
  | .setStyle target property value => '\n' ∉ target ∧ '\n' ∉ property ∧ '\n' ∉ value
  | _ => True

instance : DecidablePred Operation.OneLine
  | .applyStyle edit => inferInstanceAs (Decidable edit.OneLine)
  | .setStyle target property value =>
    inferInstanceAs (Decidable ('\n' ∉ target ∧ '\n' ∉ property ∧ '\n' ∉ value))
  | .setCursor _ | .replaceSource _ | .setProperty _ _ | .scopeBlock | .tagLine _ => isTrue trivial

def OperationResult.patch? : OperationResult → Option Style.Patch
  | .styled patch => some patch
  | _ => none

theorem OperationResult.patch?_eq_some {result : OperationResult} {patch : Style.Patch} :
    result.patch? = some patch ↔ result = .styled patch := by
  cases result with
  | styled given => simp [patch?]
  | _ => simp [patch?]

namespace Session

section edits

variable {block : Block} {target property value : Text}

theorem styleEdit_address (trimmed : block.header.Trimmed)
    (ordinary : block.isSpecial = false) :
    (styleEdit block target property value).address =
      ⟨block.blockType, trim target, block.label⟩ := by
  have type : trim block.blockType = block.blockType := trimmed.trim_blockType
  have scope : (styleEdit block target property value).scopeLabel = block.label := by
    unfold Style.Edit.scopeLabel styleEdit
    rw [ordinary]
    cases given : block.label with
    | none => rfl
    | some label =>
      obtain ⟨present, same, _⟩ := trimmed.label label given
      simp [same, present]
  rw [Style.Edit.address, scope]
  exact congrArg (Style.Address.mk · _ _) type

theorem styleEdit_allowed (trimmed : block.header.Trimmed)
    (ordinary : block.isSpecial = false) (filled : trim target ≠ []) (named : trim property ≠ []) :
    (styleEdit block target property value).refusal? = none := by
  have type : trim block.blockType = block.blockType := trimmed.trim_blockType
  have present : block.blockType ≠ [] := trimmed.present
  have free : isReserved block.blockType = false := ordinary
  unfold Style.Edit.refusal? styleEdit
  simp [type, present, free, filled, named]

theorem styleEdit_oneLine (trimmed : block.header.Trimmed)
    (inTarget : '\n' ∉ target) (inProperty : '\n' ∉ property) (inValue : '\n' ∉ value) :
    (styleEdit block target property value).OneLine where
  blockType := fun member => absurd (trimmed.solid '\n' member) (by decide)
  target := inTarget
  property := inProperty
  value := inValue
  label := by
    intro label given
    unfold styleEdit at given
    dsimp only at given
    split at given
    · cases given
    · exact (trimmed.label label given).2.2

end edits

section steps

variable {compile : Compiler}

def edit? (session : Session compile) : Operation → Option Style.Edit
  | .applyStyle edit => some edit
  | .setStyle target property value =>
    session.cursorBlock?.map fun block => styleEdit block target property value
  | _ => none

-- What an operation may do to the text and the graph, with its answer.
inductive Effect (session next : Session compile) (operation : Operation) :
    OperationResult → Prop where
  | kept {result : OperationResult} (plain : result.patch? = none)
      (source : next.source = session.source) (graph : next.graph = session.graph) :
      Effect session next operation result
  | compiled {result : OperationResult} (plain : result.patch? = none)
      (graph : next.graph = (compile next.source).graph) : Effect session next operation result
  | styled {edit : Style.Edit} {patch : Style.Patch} (made : session.edit? operation = some edit)
      (accepted : Style.patch session.indent session.source session.graph edit = .ok patch)
      (source : next.source = patch.text)
      (graph : next.graph =
        if patch.text = session.source then patch.graph else (compile patch.text).graph) :
      Effect session next operation (.styled patch)

theorem effect_applyStyle {session : Session compile} {operation : Operation} {edit : Style.Edit}
    (made : session.edit? operation = some edit) :
    Effect session (session.applyStyle edit).1 operation
      (.ofExcept .styled (session.applyStyle edit).2) := by
  cases accepted : Style.patch session.indent session.source session.graph edit with
  | error refusal =>
    simp only [applyStyle, accepted]
    exact .kept rfl rfl rfl
  | ok patch =>
    simp only [applyStyle, accepted]
    by_cases same : patch.text = session.source
    · rw [if_pos same]
      refine .styled made accepted same.symm ?_
      rw [if_pos same]
    · rw [if_neg same]
      refine .styled made accepted rfl ?_
      rw [if_neg same]
      rfl

theorem effect_step (session : Session compile) (operation : Operation) :
    Effect session (session.step operation).1 operation (session.step operation).2 := by
  cases operation with
  | setCursor line => exact .kept rfl rfl rfl
  | replaceSource source => exact .compiled rfl rfl
  | setProperty key value =>
    simp only [step, setProperty]
    cases session.requireBlock with
    | error refusal => exact .kept rfl rfl rfl
    | ok block =>
      dsimp only
      split
      · exact .kept rfl rfl rfl
      · exact .compiled rfl rfl
  | applyStyle edit => exact effect_applyStyle rfl
  | setStyle target property value =>
    simp only [step, setStyle, requireBlock]
    cases found : session.cursorBlock? with
    | none => exact .kept rfl rfl rfl
    | some block =>
      apply effect_applyStyle
      rw [edit?, found, Option.map_some]
  | scopeBlock =>
    simp only [step, scopeBlock]
    cases session.requireBlock with
    | error refusal => exact .kept rfl rfl rfl
    | ok block =>
      dsimp only
      split
      · exact .kept rfl rfl rfl
      · split
        · exact .kept rfl rfl rfl
        · split
          · exact .compiled rfl rfl
          · exact .kept rfl rfl rfl
  | tagLine line =>
    simp only [step, tagLine]
    split
    · exact .compiled rfl rfl
    · exact .kept rfl rfl rfl

end steps

def InStep (session : Session compileStyles) : Prop :=
  session.graph.sameRules (Style.Graph.ofSource session.source) = true

def Answers (session : Session compileStyles) (operation : Operation) : Prop :=
  operation.OneLine → ∀ patch ∈ (session.step operation).2.patch?,
    (session.step operation).1.graph.sameRules patch.graph = true

def Agrees (session : Session compileStyles) : List Operation → Prop
  | [] => session.InStep
  | operation :: rest =>
    session.InStep ∧ session.Answers operation ∧ (session.step operation).1.Agrees rest

def EveryStep {compile : Compiler} (holds : Session compile → Operation → Prop)
    (session : Session compile) : List Operation → Prop
  | [] => True
  | operation :: rest => holds session operation ∧ EveryStep holds (session.step operation).1 rest

-- A patch reads back; one of several lines need not when it changes the text.
def ReadsBack (session : Session compileStyles) (operation : Operation) : Prop :=
  ∀ patch ∈ (session.step operation).2.patch?,
    operation.OneLine ∨ patch.text = session.source → patch.ReadsBack

instance (session : Session compileStyles) : Decidable session.InStep :=
  inferInstanceAs (Decidable (_ = true))

instance (session : Session compileStyles) (operation : Operation) :
    Decidable (session.ReadsBack operation) :=
  inferInstanceAs (Decidable (∀ patch ∈ (session.step operation).2.patch?,
    operation.OneLine ∨ patch.text = session.source → patch.ReadsBack))

instance (session : Session compileStyles) (operation : Operation) :
    Decidable (session.Answers operation) :=
  inferInstanceAs (Decidable (operation.OneLine → ∀ patch ∈ (session.step operation).2.patch?,
    (session.step operation).1.graph.sameRules patch.graph = true))

instance Agrees.decidable (session : Session compileStyles) :
    (operations : List Operation) → Decidable (session.Agrees operations)
  | [] => inferInstanceAs (Decidable session.InStep)
  | operation :: rest =>
    have : Decidable ((session.step operation).1.Agrees rest) := Agrees.decidable _ rest
    inferInstanceAs (Decidable (session.InStep ∧ session.Answers operation ∧
      (session.step operation).1.Agrees rest))

instance EveryStep.decidable {compile : Compiler}
    (holds : Session compile → Operation → Prop)
    [each : ∀ session operation, Decidable (holds session operation)] (session : Session compile) :
    (operations : List Operation) → Decidable (session.EveryStep holds operations)
  | [] => isTrue trivial
  | operation :: rest =>
    have : Decidable ((session.step operation).1.EveryStep holds rest) :=
      EveryStep.decidable holds _ rest
    inferInstanceAs (Decidable (holds session operation ∧
      (session.step operation).1.EveryStep holds rest))

theorem everyStep_true {compile : Compiler} {session : Session compile}
    (operations : List Operation) : session.EveryStep (fun _ _ => True) operations := by
  induction operations generalizing session with
  | nil => trivial
  | cons operation rest ih => exact ⟨trivial, ih⟩

variable {session : Session compileStyles} {operation : Operation}

theorem distinct_step (distinct : session.graph.Distinct) (operation : Operation) :
    (session.step operation).1.graph.Distinct := by
  have effect := effect_step session operation
  generalize (session.step operation).1 = next at effect ⊢
  generalize (session.step operation).2 = result at effect
  cases effect with
  | kept plain source graph =>
    rw [graph]
    exact distinct
  | compiled plain graph =>
    rw [graph]
    exact Style.distinct_ofSource _
  | styled made accepted source graph =>
    rw [graph]
    split
    · rw [Style.patch_graph accepted]
      exact distinct.setProperty _ _ _
    · exact Style.distinct_ofSource _

theorem distinct_run (distinct : session.graph.Distinct) (operations : List Operation) :
    (session.run operations).graph.Distinct := by
  unfold run
  induction operations generalizing session with
  | nil => exact distinct
  | cons operation rest ih => exact ih (distinct_step distinct operation)

theorem inStep_iff_alike (distinct : session.graph.Distinct) :
    session.InStep ↔ session.graph.Alike (Style.Graph.ofSource session.source) :=
  Style.sameRules_iff_alike distinct (Style.distinct_ofSource _)

theorem agrees_step_iff (distinct : session.graph.Distinct) (inStep : session.InStep) :
    (session.step operation).1.InStep ∧ session.Answers operation ↔
      session.ReadsBack operation := by
  have after := distinct_step distinct operation
  unfold Answers ReadsBack
  have effect := effect_step session operation
  generalize (session.step operation).1 = next at effect after ⊢
  generalize (session.step operation).2 = result at effect ⊢
  cases effect with
  | kept plain source graph =>
    have stays : next.InStep := by
      unfold InStep
      rw [source, graph]
      exact inStep
    simp [plain, stays]
  | compiled plain graph =>
    have compiled : next.InStep := by
      rw [inStep_iff_alike after, graph]
      exact .refl _
    simp [plain, compiled]
  | @styled edit patch made accepted source graph =>
    have changed : patch.graph.Distinct := by
      rw [Style.patch_graph accepted]
      exact distinct.setProperty _ _ _
    rw [inStep_iff_alike after, source]
    by_cases same : patch.text = session.source
    · rw [if_pos same] at graph
      rw [graph]
      constructor
      · rintro ⟨alike, _⟩ _ ⟨⟩ _
        exact (Style.readsBack_iff_alike changed).mpr alike.symm
      · intro back
        have alike := (Style.readsBack_iff_alike changed).mp (back patch rfl (.inr same))
        refine ⟨alike.symm, ?_⟩
        intro _ _ member
        cases member
        exact (Style.sameRules_iff_alike changed changed).mpr (.refl _)
    · rw [if_neg same] at graph
      rw [graph]
      constructor
      · rintro ⟨_, answers⟩ _ ⟨⟩ reason
        exact answers (reason.resolve_right same) patch rfl
      · intro back
        refine ⟨.refl _, ?_⟩
        intro plain _ member
        cases member
        exact back patch rfl (.inl plain)

theorem agrees_iff {holds needs : Session compileStyles → Operation → Prop}
    (step : ∀ (session : Session compileStyles) (operation : Operation), session.graph.Distinct →
      session.InStep → needs session operation →
      ((session.step operation).1.InStep ∧ session.Answers operation ↔ holds session operation))
    (distinct : session.graph.Distinct) (inStep : session.InStep) {operations : List Operation}
    (needed : session.EveryStep needs operations) :
    session.Agrees operations ↔ session.EveryStep holds operations := by
  induction operations generalizing session with
  | nil => exact iff_of_true inStep trivial
  | cons operation rest ih =>
    obtain ⟨first, later⟩ := needed
    have here := step session operation distinct inStep first
    have after := distinct_step distinct operation
    constructor
    · rintro ⟨_, answers, agrees⟩
      have stays : (session.step operation).1.InStep := by
        cases rest with
        | nil => exact agrees
        | cons _ _ => exact agrees.1
      exact ⟨here.mp ⟨stays, answers⟩, (ih after stays later).mp agrees⟩
    · rintro ⟨held, rests⟩
      obtain ⟨stays, answers⟩ := here.mpr held
      exact ⟨inStep, answers, (ih after stays later).mpr rests⟩

-- A one-line edit of a canonical graph whose block is isolated in the text it makes.
def Orderly (session : Session compileStyles) (operation : Operation) : Prop :=
  ∀ edit ∈ session.edit? operation, ∀ patch ∈ (session.step operation).2.patch?,
    0 < session.indent ∧ session.graph.Canonical ∧ operation.OneLine ∧
      (edit.Changes session.graph → Style.Isolated session.indent session.source patch.graph)

def Shows (session : Session compileStyles) (operation : Operation) : Prop :=
  ∀ edit ∈ session.edit? operation, (session.step operation).2.patch? ≠ none →
    trim edit.value = [] ∨ edit.Canonical

instance (session : Session compileStyles) (operation : Operation) :
    Decidable (session.Orderly operation) :=
  inferInstanceAs (Decidable (∀ edit ∈ session.edit? operation,
    ∀ patch ∈ (session.step operation).2.patch?,
      0 < session.indent ∧ session.graph.Canonical ∧ operation.OneLine ∧
        (edit.Changes session.graph → Style.Isolated session.indent session.source patch.graph)))

instance (session : Session compileStyles) (operation : Operation) :
    Decidable (session.Shows operation) :=
  inferInstanceAs (Decidable (∀ edit ∈ session.edit? operation,
    (session.step operation).2.patch? ≠ none → trim edit.value = [] ∨ edit.Canonical))

theorem oneLine_of_edit? {edit : Style.Edit} (plain : operation.OneLine)
    (made : session.edit? operation = some edit) : edit.OneLine := by
  cases operation with
  | applyStyle given =>
    cases made
    exact plain
  | setStyle target property value =>
    obtain ⟨block, found, rfl⟩ := Option.map_eq_some_iff.mp made
    exact styleEdit_oneLine (trimmed_of_locate? found) plain.1 plain.2.1 plain.2.2
  | _ => cases made

theorem styled_cases {patch : Style.Patch} (answer : (session.step operation).2 = .styled patch) :
    ∃ edit, session.edit? operation = some edit ∧
      Style.patch session.indent session.source session.graph edit = .ok patch ∧
      (session.step operation).1.graph =
        if patch.text = session.source then patch.graph else Style.Graph.ofSource patch.text := by
  have effect := effect_step session operation
  rw [answer] at effect
  cases effect with
  | kept plain _ _ => cases plain
  | compiled plain _ => cases plain
  | styled made accepted _ graph => exact ⟨_, made, accepted, graph⟩

theorem readsBack_iff_shows (inStep : session.InStep) (orderly : session.Orderly operation) :
    session.ReadsBack operation ↔ session.Shows operation := by
  cases answer : (session.step operation).2.patch? with
  | none => simp [ReadsBack, Shows, answer]
  | some patch =>
    obtain ⟨edit, made, accepted, _⟩ := styled_cases (OperationResult.patch?_eq_some.mp answer)
    obtain ⟨positive, canonical, plain, isolated⟩ := orderly edit made patch answer
    have alike := (inStep_iff_alike canonical.distinct).mp inStep
    have written := Style.readsBack_iff_canonical positive canonical alike.symm
      (oneLine_of_edit? plain made) accepted isolated
    simp [ReadsBack, Shows, answer, made, plain, written]

section cursor

variable {block : Block} {target property value : Text}

theorem exists_patch {edit : Style.Edit} (allowed : edit.refusal? = none) (indent : Nat)
    (source : Text) (graph : Style.Graph) :
    ∃ patch, Style.patch indent source graph edit = .ok patch := by
  unfold Style.patch
  rw [allowed]
  dsimp only
  split
  · exact ⟨_, rfl⟩
  · exact ⟨_, rfl⟩

theorem setStyle_of_block (value : Text) (found : session.cursorBlock? = some block)
    (ordinary : block.isSpecial = false) (filled : trim target ≠ []) (named : trim property ≠ []) :
    ∃ patch, (session.setStyle target property value).2 = .ok patch := by
  have allowed : (styleEdit block target property value).refusal? = none :=
    styleEdit_allowed (trimmed_of_locate? found) ordinary filled named
  obtain ⟨patch, accepted⟩ := exists_patch allowed session.indent session.source session.graph
  refine ⟨patch, ?_⟩
  simp only [setStyle, requireBlock, found, applyStyle, accepted]
  split
  · rfl
  · rfl

def Shown (session : Session compileStyles) (block : Block) (target property value : Text) : Prop :=
  session.graph.property? ⟨block.blockType, trim target, block.label⟩ (trim property) =
    Style.wanted (trim value)

theorem shown_iff {patch : Style.Patch} (distinct : session.graph.Distinct)
    (found : session.cursorBlock? = some block) (ordinary : block.isSpecial = false)
    (accepted : Style.patch session.indent session.source session.graph
      (styleEdit block target property value) = .ok patch)
    (graph : (session.setStyle target property value).1.graph =
      if patch.text = session.source then patch.graph else Style.Graph.ofSource patch.text) :
    (session.setStyle target property value).1.Shown block target property value ↔
      patch.text = session.source ∨
        (Style.Graph.ofSource patch.text).property? (styleEdit block target property value).address
          (trim property) = Style.wanted (trim value) := by
  rw [Shown, ← styleEdit_address (trimmed_of_locate? found) ordinary, graph]
  by_cases same : patch.text = session.source
  · rw [if_pos same]
    exact iff_of_true (Style.property?_patch distinct accepted) (.inl same)
  · rw [if_neg same]
    simp [same]

theorem shown_iff_canonical {patch : Style.Patch} (distinct : session.graph.Distinct)
    (found : session.cursorBlock? = some block) (ordinary : block.isSpecial = false)
    (answer : (session.step (.setStyle target property value)).2 = .styled patch) :
    (patch.ReadsBack → (session.setStyle target property value).1.Shown block target property value) ∧
      (session.InStep → session.Orderly (.setStyle target property value) →
        ((session.setStyle target property value).1.Shown block target property value ↔
          patch.text = session.source ∨ trim value = [] ∨
            (styleEdit block target property value).Canonical)) := by
  obtain ⟨edit, made, accepted, graph⟩ := styled_cases answer
  have same : styleEdit block target property value = edit := by
    rw [edit?, found] at made
    exact Option.some.inj made
  subst same
  have shown := shown_iff distinct found ordinary accepted graph
  constructor
  · intro back
    exact shown.mpr (.inr (Style.property?_of_readsBack distinct accepted back))
  · intro inStep orderly
    obtain ⟨positive, canonical, plain, isolated⟩ :=
      orderly _ made patch (OperationResult.patch?_eq_some.mpr answer)
    have alike := (inStep_iff_alike distinct).mp inStep
    have written := Style.shown_iff_canonical positive canonical alike.symm
      (oneLine_of_edit? plain made) accepted isolated
    rw [shown]
    exact or_congr_right written

end cursor

-- The text and the graph agree along a run exactly when all patches read back, which for canonical
-- graphs and isolated blocks is so exactly when the edits are canonical. Then the block at the
-- cursor gets what was set.
theorem agreement (source : Text) (indent : Nat) (targets : TargetOptions)
    (operations : List Operation) :
    ((start compileStyles source indent targets).Agrees operations ↔
        (start compileStyles source indent targets).EveryStep ReadsBack operations) ∧
      ((start compileStyles source indent targets).EveryStep Orderly operations →
        ((start compileStyles source indent targets).Agrees operations ↔
          (start compileStyles source indent targets).EveryStep Shows operations)) ∧
      ∀ session : Session compileStyles,
        session = (start compileStyles source indent targets).run operations →
        ∀ block target property value, session.cursorBlock? = some block → block.isSpecial = false →
          trim target ≠ [] → trim property ≠ [] →
          ∃ patch, (session.setStyle target property value).2 = .ok patch ∧
            (patch.ReadsBack →
              (session.setStyle target property value).1.Shown block target property value) ∧
            (session.InStep → session.Orderly (.setStyle target property value) →
              ((session.setStyle target property value).1.Shown block target property value ↔
                patch.text = session.source ∨ trim value = [] ∨
                  (styleEdit block target property value).Canonical)) := by
  have distinct : (start compileStyles source indent targets).graph.Distinct :=
    Style.distinct_ofSource source
  have inStep : (start compileStyles source indent targets).InStep :=
    (inStep_iff_alike distinct).mpr (.refl _)
  refine ⟨?_, ?_, ?_⟩
  · have unneeded : (start compileStyles source indent targets).EveryStep (fun _ _ => True)
        operations := everyStep_true operations
    exact agrees_iff (fun _ _ distinct inStep _ => agrees_step_iff distinct inStep) distinct inStep
      unneeded
  · intro orderly
    refine agrees_iff ?_ distinct inStep orderly
    intro session operation distinct inStep here
    rw [agrees_step_iff distinct inStep]
    exact readsBack_iff_shows inStep here
  · rintro session rfl block target property value found ordinary filled named
    obtain ⟨patch, answer⟩ := setStyle_of_block value found ordinary filled named
    refine ⟨patch, answer, ?_⟩
    apply shown_iff_canonical (distinct_run distinct operations) found ordinary
    simp only [step, answer, OperationResult.ofExcept]

def cardStart : Session compileStyles := start compileStyles Style.cardSource 2 .default

def cardSteps : List Operation :=
  [.setCursor 2, .setStyle Style.selfTarget "color".toList "red".toList]

def cardBlock : Block :=
  { blockType := "core/card".toList, startLine := 6, endLine := 8, properties := .ofList [],
    label := none }

theorem agreement_card :
    cardStart.EveryStep Orderly cardSteps ∧ cardStart.EveryStep Shows cardSteps ∧
      cardStart.EveryStep ReadsBack cardSteps ∧ cardStart.Agrees cardSteps ∧
      (cardStart.run cardSteps).cursorBlock? = some cardBlock ∧
      ((cardStart.run cardSteps).setStyle "title".toList "margin".toList "0 1px".toList).1.Shown
        cardBlock "title".toList "margin".toList "0 1px".toList := by
  obtain ⟨readsBack, shows, styled⟩ := agreement Style.cardSource 2 .default cardSteps
  have orderly : cardStart.EveryStep Orderly cardSteps := by decide +kernel
  have shown : cardStart.EveryStep Shows cardSteps := by decide +kernel
  have agrees : cardStart.Agrees cardSteps := (shows orderly).mpr shown
  have found : (cardStart.run cardSteps).cursorBlock? = some cardBlock := by decide +kernel
  obtain ⟨patch, _, _, exact_condition⟩ := styled _ rfl cardBlock "title".toList "margin".toList
    "0 1px".toList found (by decide) (by decide) (by decide)
  have inStep : (cardStart.run cardSteps).InStep := by decide +kernel
  have next : (cardStart.run cardSteps).Orderly
      (.setStyle "title".toList "margin".toList "0 1px".toList) := by decide +kernel
  have canonical : (styleEdit cardBlock "title".toList "margin".toList "0 1px".toList).Canonical := by
    decide +kernel
  exact ⟨orderly, shown, readsBack.mp agrees, agrees, found,
    (exact_condition inStep next).mpr (.inr (.inr canonical))⟩

-- A header may name a type without a slash, which a style block reads as a kept selector.
def plainCard : Session compileStyles :=
  start compileStyles "--- card\nHi".toList Style.defaultIndent .default

def plainBlock : Block :=
  { blockType := "card".toList, startLine := 1, endLine := 3, properties := .ofList [], label := none }

theorem plain_card_parted :
    plainCard.cursorBlock? = some plainBlock ∧ plainBlock.isSpecial = false ∧
      ¬plainCard.Agrees [.setStyle Style.selfTarget "color".toList "red".toList] ∧
      ¬(plainCard.setStyle Style.selfTarget "color".toList "red".toList).1.Shown plainBlock
        Style.selfTarget "color".toList "red".toList :=
  ⟨by decide +kernel, by decide, by decide +kernel, by unfold Shown; decide +kernel⟩

-- A value that ends in a semicolon is read without it, so the text that would be written may be
-- there already while the graph gets another value.
example : ¬((start compileStyles "--- core/card\nHi\n--- style\ncore/card\n  color: red;".toList
    Style.defaultIndent .default).run
      [.setStyle Style.selfTarget "color".toList "red;".toList]).InStep := by
  decide +kernel

end Session
end BlockMarkup
