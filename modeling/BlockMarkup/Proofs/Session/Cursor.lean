import BlockMarkup.Proofs.Naming
import BlockMarkup.Proofs.Outline
import BlockMarkup.Proofs.Session.Agreement
import BlockMarkup.Proofs.Style.Accounting

namespace BlockMarkup

theorem firstChange_le (before after : List Text) : firstChange before after ≤ after.length + 1 := by
  induction before generalizing after with
  | nil => simp [firstChange]
  | cons line rest ih =>
    cases after with
    | nil => exact Nat.le_refl 1
    | cons other more =>
      rw [firstChange, List.length_cons]
      split
      · exact Nat.succ_le_succ (ih more)
      · omega

namespace Style

variable {indent number : Nat} {source : Text} {graph : Graph} {edit : Edit} {patch : Patch}
variable {above removed added below : List Text}

theorem Patch.shiftLine_pos (positive : 1 ≤ number) : 1 ≤ patch.shiftLine number := by
  rw [shiftLine]
  split
  · exact Nat.le_max_right _ 1
  · exact positive

theorem spliced_of_accepted (accepted : Style.patch indent source graph edit = .ok patch)
    (changed : patch.text ≠ source) :
    ∃ above removed added below, Spliced source patch above removed added below ∧
      ∀ number, above.length < number ∧ number ≤ above.length + removed.length ↔
        ∃ region, Region.first? source = some region ∧ region.headerLine ≤ number ∧
          number < region.bodyEnd := by
  obtain ⟨_, ⟨_, rfl⟩ | ⟨_, rfl⟩⟩ := patch_cases accepted
  · exact absurd rfl changed
  rcases Region.first?_cases source with ⟨absent, _⟩ | ⟨above, header, body, blanks, below, parts⟩
  · by_cases filled : (edit.applyTo graph).bodyLines indent = []
    · rw [writeBlock_of_none absent, if_pos filled] at changed
      exact absurd rfl changed
    · refine ⟨_, _, _, _, spliced_inserted absent rfl filled rfl, fun number => ?_⟩
      constructor
      · rintro ⟨past, inside⟩
        rw [List.length_nil] at inside
        omega
      · rintro ⟨region, first, _⟩
        rw [absent] at first
        cases first
  · refine ⟨_, _, _, _, spliced_writeBlock parts, fun number => ?_⟩
    simp only [parts.first?, Option.some.injEq, exists_eq_left', List.length_cons]
    omega

theorem locate?_in_region {region : Region} (first : Region.first? source = some region)
    (start : region.headerLine ≤ number) (before : number < region.bodyEnd) :
    Block.locate? source number = none := by
  rcases Region.first?_cases source with ⟨absent, _⟩ | ⟨above, header, body, blanks, below, parts⟩
  · rw [absent] at first
    cases first
  rw [parts.first?, Option.some.injEq] at first
  subst first
  dsimp only at start before
  have within : number ≤ lineCount source := by
    have total := congrArg List.length parts.whole
    simp only [List.length_append, List.length_cons] at total
    rw [lineCount]
    omega
  obtain ⟨label, kind⟩ := classify_of_isStyleHeader parts.isHeader
  refine (locate?_eq_none_iff within).mpr (.inr ⟨⟨above.length + 1, styleType, label⟩, ?_, rfl⟩)
  refine ⟨by simp [Heads, lineAt?, parts.whole, kind], start, fun other heads upTo => ?_⟩
  apply Nat.le_of_not_lt
  intro after
  have ends := ends_boundaryAfter (splitLines source) (above.length + 1)
  rw [parts.boundaryAfter, List.length_append] at ends
  exact ends.not_boundary after (by omega) heads.boundaryAt

end Style

namespace Session

variable {compile : Compiler} {session : Session compile}

def InRange (session : Session compile) : Prop :=
  1 ≤ session.cursor ∧ session.cursor ≤ lineCount session.source

instance (session : Session compile) : Decidable session.InRange :=
  inferInstanceAs (Decidable (_ ∧ _))

theorem inRange_start (compile : Compiler) (source : Text) (indent : Nat) (targets : TargetOptions) :
    (start compile source indent targets).InRange :=
  ⟨Nat.le_refl 1, lineCount_pos source⟩

theorem inRange_setCursor (session : Session compile) (line : Nat) :
    (session.setCursor line).InRange := by
  have positive := lineCount_pos session.source
  simp only [InRange, setCursor]
  omega

theorem inRange_replaceSource (session : Session compile) (source : Text) :
    (session.replaceSource source).InRange := inRange_setCursor _ _

theorem InRange.commit (inRange : session.InRange) {source : Text}
    (longer : lineCount session.source ≤ lineCount source) : (session.commit source).InRange :=
  ⟨inRange.1, Nat.le_trans inRange.2 longer⟩

theorem movedCursor_pos (positive : 1 ≤ session.cursor) (changed : Text) :
    1 ≤ session.movedCursor changed := by
  rw [movedCursor]
  split
  · exact Nat.le_max_right _ 1
  · exact positive

theorem movedCursor_inRange (inRange : session.InRange) (changed : Text) :
    1 ≤ session.movedCursor changed ∧ session.movedCursor changed ≤ lineCount changed := by
  refine ⟨movedCursor_pos inRange.1 changed, ?_⟩
  have inside := inRange.2
  have present := lineCount_pos changed
  have bound : firstChange (splitLines session.source) (splitLines changed) ≤ lineCount changed + 1 :=
    firstChange_le _ _
  rw [movedCursor, lineDelta]
  split
  · omega
  · omega

theorem inRange_setProperty (inRange : session.InRange) (key value : Text) :
    (session.setProperty key value).1.InRange := by
  unfold setProperty
  split
  · exact inRange
  · dsimp only
    split
    · exact inRange
    · exact movedCursor_inRange inRange _

theorem inRange_scopeBlock (inRange : session.InRange) : session.scopeBlock.1.InRange := by
  unfold scopeBlock
  split
  · exact inRange
  split
  · exact inRange
  split
  · exact inRange
  · dsimp only
    split
    · rename_i injected
      obtain ⟨_, _, _, _, replaced⟩ := Naming.injectLabel?_eq_some injected
      exact inRange.commit replaced.lineCount_le
    · exact inRange

theorem inRange_tagLine (inRange : session.InRange) (line : Nat) :
    (session.tagLine line).1.InRange := by
  unfold tagLine
  dsimp only
  split
  · rename_i injected
    obtain ⟨_, _, _, _, _, _, replaced⟩ := Naming.injectClass?_eq_some injected
    exact inRange.commit replaced.lineCount_le
  · exact inRange

-- A style edit that writes over the line of the cursor leaves as many lines.
def LeavesRoom (session : Session compile) (edit : Style.Edit) : Prop :=
  ∀ patch ∈ (Style.patch session.indent session.source session.graph edit).toOption,
    ∀ region ∈ Style.Region.first? session.source,
      region.headerLine ≤ session.cursor → session.cursor < region.bodyEnd →
      session.cursor ≤ lineCount patch.text

instance (session : Session compile) (edit : Style.Edit) : Decidable (session.LeavesRoom edit) :=
  inferInstanceAs (Decidable (∀ patch ∈ Except.toOption _, ∀ region ∈ Style.Region.first? _,
    _ → _ → _ ≤ lineCount _))

theorem inRange_applyStyle_iff (inRange : session.InRange) (edit : Style.Edit) :
    (session.applyStyle edit).1.InRange ↔ session.LeavesRoom edit := by
  unfold applyStyle LeavesRoom
  cases accepted : Style.patch session.indent session.source session.graph edit with
  | error refusal => exact iff_of_true inRange (by simp [Except.toOption])
  | ok patch =>
    simp only [Except.toOption, Option.mem_some_iff, forall_eq']
    by_cases same : patch.text = session.source
    · rw [if_pos same]
      refine iff_of_true inRange fun _ _ _ _ => ?_
      rw [same]
      exact inRange.2
    rw [if_neg same]
    obtain ⟨above, removed, added, below, spliced, covered⟩ := Style.spliced_of_accepted accepted same
    by_cases inside : above.length < session.cursor ∧ session.cursor ≤ above.length + removed.length
    · obtain ⟨region, first, start, before⟩ := (covered _).mp inside
      have stays := spliced.shiftLine_upTo inside.2
      have cursor : InRange (({ session with cursor := patch.shiftLine session.cursor } :
          Session compile).commit patch.text) ↔
            1 ≤ session.cursor ∧ session.cursor ≤ lineCount patch.text := by
        rw [stays]
        rfl
      rw [cursor]
      constructor
      · exact fun room _ _ _ _ => room.2
      · exact fun room => ⟨inRange.1, room region first start before⟩
    · refine iff_of_true (spliced.shiftLine_inRange inRange.1 inRange.2 (by omega)) ?_
      exact fun region first start before =>
        absurd ((covered _).mpr ⟨region, first, start, before⟩) inside

theorem inRange_setStyle (inRange : session.InRange) (target property value : Text) :
    (session.setStyle target property value).1.InRange := by
  unfold setStyle requireBlock
  cases found : session.cursorBlock? with
  | none => exact inRange
  | some block =>
    refine (inRange_applyStyle_iff inRange _).mpr fun patch _ region first start before => ?_
    rw [cursorBlock?, Style.locate?_in_region first start before] at found
    cases found

-- What it takes for an operation to keep the cursor in the text.
def KeepsCursor (session : Session compile) : Operation → Prop
  | .applyStyle edit => session.LeavesRoom edit
  | _ => True

instance (session : Session compile) : DecidablePred session.KeepsCursor
  | .applyStyle edit => inferInstanceAs (Decidable (session.LeavesRoom edit))
  | .setCursor _ | .replaceSource _ | .setProperty _ _ | .setStyle _ _ _ | .scopeBlock | .tagLine _ =>
    isTrue trivial

theorem inRange_step_iff (inRange : session.InRange) (operation : Operation) :
    (session.step operation).1.InRange ↔ session.KeepsCursor operation := by
  cases operation with
  | setCursor line => exact iff_of_true (inRange_setCursor session line) trivial
  | replaceSource source => exact iff_of_true (inRange_replaceSource session source) trivial
  | setProperty key value => exact iff_of_true (inRange_setProperty inRange key value) trivial
  | applyStyle edit => exact inRange_applyStyle_iff inRange edit
  | setStyle target property value =>
    exact iff_of_true (inRange_setStyle inRange target property value) trivial
  | scopeBlock => exact iff_of_true (inRange_scopeBlock inRange) trivial
  | tagLine line => exact iff_of_true (inRange_tagLine inRange line) trivial

theorem inRange_run_iff (inRange : session.InRange) (operations : List Operation) :
    (∀ first, first <+: operations → (session.run first).InRange) ↔
      session.EveryStep KeepsCursor operations := by
  induction operations generalizing session with
  | nil =>
    refine iff_of_true ?_ trivial
    intro first early
    rw [List.prefix_nil.mp early]
    exact inRange
  | cons operation rest ih =>
    constructor
    · intro stays
      have next : (session.step operation).1.InRange := stays [operation] (by simp)
      refine ⟨(inRange_step_iff inRange operation).mp next, (ih next).mp fun first early => ?_⟩
      exact stays (operation :: first) (List.cons_prefix_cons.mpr ⟨rfl, early⟩)
    · rintro ⟨keeps, later⟩ first early
      have next := (inRange_step_iff inRange operation).mpr keeps
      rcases List.prefix_cons_iff.mp early with rfl | ⟨more, rfl, earlier⟩
      · exact inRange
      · exact (ih next).mpr later more earlier

theorem cursor_pos_applyStyle (positive : 1 ≤ session.cursor) (edit : Style.Edit) :
    1 ≤ (session.applyStyle edit).1.cursor := by
  unfold applyStyle
  split
  · exact positive
  · split
    · exact positive
    · exact Style.Patch.shiftLine_pos positive

theorem cursor_pos_step (positive : 1 ≤ session.cursor) (operation : Operation) :
    1 ≤ (session.step operation).1.cursor := by
  cases operation with
  | setCursor line => exact (inRange_setCursor session line).1
  | replaceSource source => exact (inRange_replaceSource session source).1
  | setProperty key value =>
    simp only [step, setProperty]
    split
    · exact positive
    · split
      · exact positive
      · exact movedCursor_pos positive _
  | applyStyle edit => exact cursor_pos_applyStyle positive edit
  | setStyle target property value =>
    simp only [step, setStyle]
    split
    · exact positive
    · exact cursor_pos_applyStyle positive _
  | scopeBlock =>
    simp only [step, scopeBlock]
    split
    · exact positive
    split
    · exact positive
    split
    · exact positive
    · split
      · exact positive
      · exact positive
  | tagLine line =>
    simp only [step, tagLine]
    split
    · exact positive
    · exact positive

theorem cursor_pos_run (positive : 1 ≤ session.cursor) (operations : List Operation) :
    1 ≤ (session.run operations).cursor := by
  unfold run
  induction operations generalizing session with
  | nil => exact positive
  | cons operation rest ih => exact ih (cursor_pos_step positive operation)

theorem keepsCursor_of_noApply {operations : List Operation}
    (noApply : ∀ edit, .applyStyle edit ∉ operations) :
    session.EveryStep KeepsCursor operations := by
  induction operations generalizing session with
  | nil => trivial
  | cons operation rest ih =>
    refine ⟨?_, ih fun edit member => noApply edit (List.mem_cons_of_mem _ member)⟩
    cases operation with
    | applyStyle edit => exact absurd List.mem_cons_self (noApply edit)
    | _ => trivial

-- The cursor is on a line of the text all along a run exactly when each style edit, but those of the
-- block at the cursor, leaves as many lines as there are up to a cursor that it writes over.
theorem cursor_inRange_iff (compile : Compiler) (source : Text) (indent : Nat)
    (targets : TargetOptions) (operations : List Operation) :
    1 ≤ ((start compile source indent targets).run operations).cursor ∧
      ((∀ first, first <+: operations →
          ((start compile source indent targets).run first).InRange) ↔
        (start compile source indent targets).EveryStep KeepsCursor operations) ∧
      ((∀ edit, .applyStyle edit ∉ operations) →
        ((start compile source indent targets).run operations).InRange) := by
  have inRange := inRange_start compile source indent targets
  have along := inRange_run_iff inRange operations
  refine ⟨cursor_pos_run inRange.1 operations, along, fun noApply => ?_⟩
  exact along.mpr (keepsCursor_of_noApply noApply) operations (List.prefix_refl operations)

def styledCard : Session compileStyles :=
  start compileStyles "--- core/card\nHi\n--- style\ncore/card\n  color: red".toList
    Style.defaultIndent .default

theorem cursor_inRange_styledCard :
    styledCard.EveryStep KeepsCursor [.setCursor 5, .applyStyle (Style.cardEdit "blue".toList)] ∧
      (styledCard.run [.setCursor 5, .applyStyle (Style.cardEdit "blue".toList)]).InRange ∧
      (∀ edit, Operation.applyStyle edit ∉
        [.setCursor 2, .setStyle Style.selfTarget "color".toList []]) ∧
      (styledCard.run [.setCursor 2, .setStyle Style.selfTarget "color".toList []]).InRange := by
  obtain ⟨_, along, _⟩ := cursor_inRange_iff compileStyles _ Style.defaultIndent .default
    [.setCursor 5, .applyStyle (Style.cardEdit "blue".toList)]
  obtain ⟨_, _, unstyled⟩ := cursor_inRange_iff compileStyles _ Style.defaultIndent .default
    [.setCursor 2, .setStyle Style.selfTarget "color".toList []]
  have keeps : styledCard.EveryStep KeepsCursor
      [.setCursor 5, .applyStyle (Style.cardEdit "blue".toList)] := by decide +kernel
  have noApply : ∀ edit, Operation.applyStyle edit ∉
      [.setCursor 2, .setStyle Style.selfTarget "color".toList []] := by simp
  exact ⟨keeps, along.mpr keeps _ (List.prefix_refl _), noApply, unstyled noApply⟩

-- The last rule goes, and the block with it, while the cursor is on its last line.
theorem styledCard_cursor_lost :
    (styledCard.run [.setCursor 5, .applyStyle (Style.cardEdit [])]).cursor = 5 ∧
      lineCount (styledCard.run [.setCursor 5, .applyStyle (Style.cardEdit [])]).source = 2 ∧
      ¬(styledCard.run [.setCursor 5, .applyStyle (Style.cardEdit [])]).InRange := by
  decide +kernel

end Session
end BlockMarkup
