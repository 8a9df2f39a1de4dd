import BlockMarkup.Session

namespace BlockMarkup

def OperationResult.failed : OperationResult → Bool
  | .refused _ | .tagged none => true
  | _ => false

def Operation.isEdit : Operation → Bool
  | .setCursor _ => false
  | _ => true

namespace Session

variable {compile : Compiler} {session next : Session compile} {operation : Operation}

-- The text is already as the operation wants it: the block has a label, the property has its value, or the
-- style patch gives the same text.
def findsDone (session : Session compile) : Operation → OperationResult → Bool
  | .scopeBlock, _ => (session.cursorBlock?.bind Block.label).isSome
  | _, .property changed => !changed
  | _, .styled patch => patch.text = session.source
  | _, _ => false

inductive Transaction (session next : Session compile) (operation : Operation)
    (result : OperationResult) : Prop
  | failed (failed : result.failed = true) (same : next = session)
  | moved (noEdit : operation.isEdit = false) (succeeded : result.failed = false)
      (pending : session.findsDone operation result = false) (cursor : Nat)
      (kept : next = { session with cursor := cursor })
  | idle (succeeded : result.failed = false) (isDone : session.findsDone operation result = true)
      (graph : Style.Graph) (kept : next = { session with graph := graph })
  | committed (isEdit : operation.isEdit = true) (succeeded : result.failed = false)
      (pending : session.findsDone operation result = false) (cursor : Nat) (source : Text)
      (new : next = ({ session with cursor := cursor } : Session compile).commit source)

theorem transaction_setProperty (session : Session compile) (key value : Text) :
    session.Transaction (session.setProperty key value).1 (.setProperty key value)
      (.ofExcept .property (session.setProperty key value).2) := by
  unfold setProperty
  cases session.requireBlock with
  | error refusal => exact .failed rfl rfl
  | ok block =>
    dsimp only
    split
    · exact .idle rfl rfl session.graph rfl
    · exact .committed rfl rfl rfl (session.movedCursor _) _ rfl

theorem transaction_applyStyle (isEdit : operation.isEdit = true)
    (byPatch : ∀ patch, session.findsDone operation (.styled patch) =
      decide (patch.text = session.source)) (edit : Style.Edit) :
    session.Transaction (session.applyStyle edit).1 operation
      (.ofExcept .styled (session.applyStyle edit).2) := by
  unfold applyStyle
  cases Style.patch session.indent session.source session.graph edit with
  | error refusal => exact .failed rfl rfl
  | ok patch =>
    dsimp only
    split
    · rename_i same
      exact .idle rfl (by simp [OperationResult.ofExcept, byPatch, same]) patch.graph rfl
    · rename_i changed
      exact .committed isEdit rfl (by simp [OperationResult.ofExcept, byPatch, changed])
        (patch.shiftLine session.cursor) patch.text rfl

theorem transaction_setStyle (session : Session compile) (target property value : Text) :
    session.Transaction (session.setStyle target property value).1
      (.setStyle target property value)
      (.ofExcept .styled (session.setStyle target property value).2) := by
  unfold setStyle
  cases session.requireBlock with
  | error refusal => exact .failed rfl rfl
  | ok block => exact transaction_applyStyle rfl (fun _ => rfl) _

theorem transaction_scopeBlock (session : Session compile) :
    session.Transaction session.scopeBlock.1 .scopeBlock (.ofExcept .scoped session.scopeBlock.2) := by
  unfold scopeBlock requireBlock
  cases located : session.cursorBlock? with
  | none => exact .failed rfl rfl
  | some block =>
    dsimp only
    split
    · exact .failed rfl rfl
    · split
      · rename_i label given
        exact .idle rfl (by simp [findsDone, located, given]) session.graph rfl
      · rename_i unlabelled
        split
        · exact .committed rfl rfl (by simp [findsDone, located, unlabelled]) session.cursor _ rfl
        · exact .failed rfl rfl

theorem transaction_tagLine (session : Session compile) (line : Nat) :
    session.Transaction (session.tagLine line).1 (.tagLine line) (.tagged (session.tagLine line).2) := by
  unfold tagLine
  dsimp only
  split
  · exact .committed rfl rfl rfl session.cursor _ rfl
  · exact .failed rfl rfl

theorem transaction_step (session : Session compile) (operation : Operation) :
    session.Transaction (session.step operation).1 operation (session.step operation).2 := by
  cases operation with
  | setCursor line => exact .moved rfl rfl rfl _ rfl
  | replaceSource source =>
    exact .committed rfl rfl rfl (min (max session.cursor 1) (lineCount source)) source rfl
  | setProperty key value => exact transaction_setProperty session key value
  | applyStyle edit => exact transaction_applyStyle rfl (fun _ => rfl) edit
  | setStyle target property value => exact transaction_setStyle session target property value
  | scopeBlock => exact transaction_scopeBlock session
  | tagLine line => exact transaction_tagLine session line

namespace Transaction

variable {result : OperationResult} (transaction : session.Transaction next operation result)

include transaction

theorem eq_of_failed (failed : result.failed = true) : next = session := by
  cases transaction with
  | failed _ same => exact same
  | moved _ succeeded => rw [failed] at succeeded; cases succeeded
  | idle succeeded => rw [failed] at succeeded; cases succeeded
  | committed _ succeeded => rw [failed] at succeeded; cases succeeded

-- The graph is not among what stays: a style patch brings its own.
theorem kept_of_findsDone (isDone : session.findsDone operation result = true) :
    next.source = session.source ∧ next.generation = session.generation ∧
      next.cursor = session.cursor ∧ next.output = session.output := by
  cases transaction with
  | failed _ same => rw [same]; exact ⟨rfl, rfl, rfl, rfl⟩
  | moved _ _ pending => rw [isDone] at pending; cases pending
  | idle _ _ graph kept => rw [kept]; exact ⟨rfl, rfl, rfl, rfl⟩
  | committed _ _ pending => rw [isDone] at pending; cases pending

theorem generation_succ (isEdit : operation.isEdit = true) (succeeded : result.failed = false)
    (pending : session.findsDone operation result = false) :
    next.generation = session.generation + 1 := by
  cases transaction with
  | failed failed => rw [succeeded] at failed; cases failed
  | moved noEdit => rw [isEdit] at noEdit; cases noEdit
  | idle _ isDone => rw [pending] at isDone; cases isDone
  | committed _ _ _ cursor source new => rw [new]; rfl

theorem generation_le : session.generation ≤ next.generation ∧
    (next.generation = session.generation → next.source = session.source) := by
  cases transaction with
  | failed _ same => rw [same]; exact ⟨Nat.le_refl _, fun _ => rfl⟩
  | moved _ _ _ cursor kept => rw [kept]; exact ⟨Nat.le_refl _, fun _ => rfl⟩
  | idle _ _ graph kept => rw [kept]; exact ⟨Nat.le_refl _, fun _ => rfl⟩
  | committed _ _ _ cursor source new =>
    rw [new]
    exact ⟨Nat.le_succ _, fun same => absurd same (Nat.succ_ne_self _)⟩

theorem output_eq (compiled : session.output = compile session.source) :
    next.output = compile next.source := by
  cases transaction with
  | failed _ same => rw [same]; exact compiled
  | moved _ _ _ cursor kept => rw [kept]; exact compiled
  | idle _ _ graph kept => rw [kept]; exact compiled
  | committed _ _ _ cursor source new => rw [new]; rfl

end Transaction

theorem output_run (compiled : session.output = compile session.source)
    (operations : List Operation) :
    (session.run operations).output = compile (session.run operations).source := by
  unfold run
  induction operations generalizing session with
  | nil => exact compiled
  | cons operation rest ih => exact ih ((transaction_step session operation).output_eq compiled)

theorem generation_le_run (session : Session compile) (operations : List Operation) :
    session.generation ≤ (session.run operations).generation ∧
      ((session.run operations).generation = session.generation →
        (session.run operations).source = session.source) := by
  unfold run
  induction operations generalizing session with
  | nil => exact ⟨Nat.le_refl _, fun _ => rfl⟩
  | cons operation rest ih =>
    obtain ⟨grows, here⟩ := (transaction_step session operation).generation_le
    obtain ⟨growsOn, later⟩ := ih (session.step operation).1
    refine ⟨Nat.le_trans grows growsOn, fun same => ?_⟩
    rw [List.foldl_cons] at same ⊢
    have first : (session.step operation).1.generation = session.generation := by omega
    exact (later (same.trans first.symm)).trans (here first)

-- In every session that can be reached the output is that of the text. What fails changes nothing, what
-- finds the text as it is to be leaves text, generation, cursor and output, and every other edit makes
-- exactly one generation. As long as the generation is the same, so is the text.
theorem run_transactional (compile : Compiler) (source : Text) (indent : Nat)
    (targets : TargetOptions) (operations : List Operation) (session : Session compile)
    (reached : session = (start compile source indent targets).run operations) :
    session.output = compile session.source ∧
      (∀ operation,
        ((session.step operation).2.failed = true → (session.step operation).1 = session) ∧
        (session.findsDone operation (session.step operation).2 = true →
          (session.step operation).1.source = session.source ∧
            (session.step operation).1.generation = session.generation ∧
            (session.step operation).1.cursor = session.cursor ∧
            (session.step operation).1.output = session.output) ∧
        (operation.isEdit = true → (session.step operation).2.failed = false →
          session.findsDone operation (session.step operation).2 = false →
          (session.step operation).1.generation = session.generation + 1)) ∧
      ∀ later, (session.run later).generation = session.generation →
        (session.run later).source = session.source := by
  have output : session.output = compile session.source := reached ▸ output_run rfl operations
  refine ⟨output, fun operation => ?_, fun later => (generation_le_run session later).2⟩
  have transaction := transaction_step session operation
  exact ⟨transaction.eq_of_failed, transaction.kept_of_findsDone, transaction.generation_succ⟩

def sizedPage : Session compileStyles :=
  (start compileStyles "--- core/card\nHi".toList Style.defaultIndent .default).run
    [.setProperty "size".toList "1".toList]

theorem run_transactional_sizedPage :
    sizedPage.output = compileStyles sizedPage.source ∧
      (sizedPage.step (.tagLine 0)).2.failed = true ∧
      (sizedPage.step (.tagLine 0)).1 = sizedPage ∧
      (sizedPage.step (.setProperty "size".toList "1".toList)).2 = .property false ∧
      (sizedPage.step (.setProperty "size".toList "1".toList)).1.generation =
        sizedPage.generation ∧
      (sizedPage.step .scopeBlock).2 = .scoped "s1".toList ∧
      (sizedPage.step .scopeBlock).1.generation = sizedPage.generation + 1 ∧
      (sizedPage.run [.setCursor 2, .tagLine 0]).generation = sizedPage.generation ∧
      (sizedPage.run [.setCursor 2, .tagLine 0]).source = sizedPage.source := by
  obtain ⟨output, steps, later⟩ := run_transactional compileStyles "--- core/card\nHi".toList
    Style.defaultIndent .default [.setProperty "size".toList "1".toList] sizedPage rfl
  have refused : (sizedPage.step (.tagLine 0)).2.failed = true := by decide +kernel
  have again : (sizedPage.step (.setProperty "size".toList "1".toList)).2 = .property false := by
    decide +kernel
  have labelled : (sizedPage.step .scopeBlock).2 = .scoped "s1".toList := by decide +kernel
  have same : (sizedPage.run [.setCursor 2, .tagLine 0]).generation = sizedPage.generation := by
    decide +kernel
  have isDone : sizedPage.findsDone (.setProperty "size".toList "1".toList)
      (sizedPage.step (.setProperty "size".toList "1".toList)).2 = true := by
    rw [again]
    rfl
  have pending : sizedPage.findsDone .scopeBlock (sizedPage.step .scopeBlock).2 = false := by
    decide +kernel
  exact ⟨output, refused, (steps _).1 refused, again, ((steps _).2.1 isDone).2.1, labelled,
    (steps _).2.2 rfl (by rw [labelled]; rfl) pending, same, later _ same⟩

end Session
end BlockMarkup
