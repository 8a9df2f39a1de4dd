import BlockMarkup.Checked.Command
import BlockMarkup.Proofs.Identifier

namespace BlockMarkup

inductive LineWrittenAs (line : Nat) : Text → Prop
  | plain (zeros : Nat) : LineWrittenAs line (List.replicate zeros '0' ++ decimal line)
  | signed (zeros : Nat) : LineWrittenAs line ('+' :: (List.replicate zeros '0' ++ decimal line))

inductive ValueWrittenAs : Text → List Text → Prop
  | written (value : Text) : ValueWrittenAs value [value]
  | leftOut : ValueWrittenAs [] []

-- What follows the verb of a style edit: parameters in their order, and labels anywhere among them.
inductive Piece where
  | parameter (word : Text)
  | scope (label : Text)

namespace Piece

def words : Piece → List Text
  | .parameter word => [word]
  | .scope label => [labelFlag, label]

def parameter? : Piece → Option Text
  | .parameter word => some word
  | .scope _ => none

def label? : Piece → Option Text
  | .parameter _ => none
  | .scope label => some label

end Piece

inductive Command.WrittenAs : Command → List Text → Prop
  | locate : LineWrittenAs line word → WrittenAs (.locate line) [word]
  | setProperty (key : Text) : LineWrittenAs line word → ValueWrittenAs value last →
      WrittenAs (.setProperty line key value) (word :: key :: last)
  -- Of several labels the last one counts.
  | setStyle (edit : Style.Edit) (pieces : List Piece) : ValueWrittenAs edit.value last →
      pieces.filterMap Piece.parameter? = edit.blockType :: edit.target :: edit.property :: last →
      (pieces.filterMap Piece.label?).getLast? = edit.label →
      WrittenAs (.setStyle edit) (pieces.flatMap Piece.words)
  | label : LineWrittenAs line word → WrittenAs (.label line) [word]
  | tag : LineWrittenAs line word → WrittenAs (.tag line) [word]
  | nextIdentifier : WrittenAs .nextIdentifier []
  | styles : WrittenAs .styles []
  | inspect : WrittenAs .inspect []

def Invocation.WrittenAs (invocation : Invocation) (arguments : List Text) : Prop :=
  ∃ parameters, invocation.command.WrittenAs parameters ∧
    arguments = invocation.document.toList ++ invocation.command.verb.name :: parameters

def Command.line? : Command → Option Nat
  | .locate line | .setProperty line _ _ | .label line | .tag line => some line
  | .setStyle _ | .nextIdentifier | .styles | .inspect => none

def Command.editWords : Command → List Text
  | .setStyle edit => [edit.blockType, edit.target, edit.property, edit.value]
  | _ => []

-- The invocations that arguments can say: no document is taken for a verb, no word of an edit for the
-- flag, and a line number is one.
structure Invocation.Expressible (invocation : Invocation) : Prop where
  document : ∀ document ∈ invocation.document, Verb.ofName? document = none
  line : ∀ line ∈ invocation.command.line?, 1 ≤ line ∧ line ≤ maxWord
  edit : labelFlag ∉ invocation.command.editWords

variable {parameters : List Text} {word : Text} {line : Nat}

namespace Checked

variable {verb : Verb} {least most : Nat}

theorem expectCount_of_outside (outside : parameters.length < least ∨ most < parameters.length) :
    expectCount verb parameters least most = .error (.wrongCount verb parameters.length) :=
  if_pos outside

theorem run_made {α β : Type} {reader : Reader α} {read : Except UsageError α}
    (reads : reader.run = .ok read) (make : α → β) :
    (do return make (← reader) : Reader β).run = .ok (make <$> read) := by
  have same : reader = ExceptT.mk (.ok read) := reads
  rw [same]
  cases read <;> rfl

theorem run_made_line (word : Text) (make : Nat → Command) :
    (do return make (← readLineNumber word) : Reader Command).run =
      .ok (make <$> readLineNumber word) :=
  run_made rfl make

theorem readNumbered_eq (verb : Verb) (make : Nat → Command) (parameters : List Text) :
    (readNumbered verb make parameters).run = .ok (match parameters with
      | [word] => make <$> readLineNumber word
      | _ => .error (.wrongCount verb parameters.length)) := by
  match parameters with
  | [] => rfl
  | [word] => exact run_made_line word make
  | first :: second :: rest =>
    rw [readNumbered, expectCount_of_outside (by simp)]
    rfl

theorem readBare_eq (verb : Verb) (command : Command) (parameters : List Text) :
    (readBare verb command parameters).run = .ok (match parameters with
      | [] => .ok command
      | _ => .error (.wrongCount verb parameters.length)) := by
  cases parameters with
  | nil => rfl
  | cons first rest =>
    rw [readBare, expectCount_of_outside (by simp)]
    rfl

theorem readSetProperty_eq (parameters : List Text) :
    (readSetProperty parameters).run = .ok (Command.ofParameters .setProperty parameters) := by
  match parameters with
  | [] | [_] => rfl
  | [word, key] => exact run_made_line word (Command.setProperty · key [])
  | [word, key, value] => exact run_made_line word (Command.setProperty · key value)
  | first :: second :: third :: fourth :: rest =>
    rw [readSetProperty, expectCount_of_outside (by simp)]
    rfl

theorem readSetStyle_eq (parameters : List Text) :
    (readSetStyle parameters).run = .ok (Command.ofParameters .setStyle parameters) := by
  rw [readSetStyle, Command.ofParameters, if_pos rfl]
  cases takeLabels? parameters with
  | none => rfl
  | some taken =>
    obtain ⟨others, label⟩ := taken
    match others with
    | [] | [_] | [_, _] | [_, _, _] | [_, _, _, _] => rfl
    | _ :: _ :: _ :: _ :: _ :: _ =>
      dsimp only
      rw [expectCount_of_outside (by simp)]
      rfl

theorem readCommand_eq (verb : Verb) (parameters : List Text) :
    (readCommand verb parameters).run = .ok (Command.ofParameters verb parameters) := by
  cases verb with
  | setProperty => exact readSetProperty_eq parameters
  | setStyle => exact readSetStyle_eq parameters
  | locate | label | tag =>
    refine (readNumbered_eq _ _ parameters).trans ?_
    match parameters with
    | [] | [_] | _ :: _ :: _ => rfl
  | nextIdentifier | styles | inspect =>
    refine (readBare_eq _ _ parameters).trans ?_
    cases parameters <;> rfl

theorem readVerb_eq {name : Text} (document : Option Text) (parameters : List Text) :
    (readVerb document (name :: parameters)).run = .ok (match Verb.ofName? name with
      | some verb => Invocation.mk document <$> Command.ofParameters verb parameters
      | none => .error (.unknownCommand name)) := by
  unfold readVerb
  dsimp only
  cases Verb.ofName? name with
  | none => rfl
  | some verb => exact run_made (readCommand_eq verb parameters) (Invocation.mk document)

theorem readInvocation_eq (arguments : List Text) :
    (readInvocation arguments).run = .ok (Invocation.ofArguments arguments) := by
  cases arguments with
  | nil => rfl
  | cons first rest =>
    unfold readInvocation Invocation.ofArguments
    dsimp only
    cases leading : Verb.ofName? first with
    | some verb =>
      rw [Option.isSome_some, if_pos rfl, readVerb_eq, leading]
    | none =>
      cases rest with
      | nil => rfl
      | cons name parameters => exact readVerb_eq (some first) parameters

end Checked

theorem isDigit_of_mem_padded {zeros : Nat} {c : Char}
    (member : c ∈ List.replicate zeros '0' ++ decimal line) : c.isDigit = true := by
  rcases List.mem_append.mp member with zero | digit
  · rw [List.eq_of_mem_replicate zero]
    rfl
  · exact isDigit_of_mem_decimal digit

theorem word?_padded (fits : line ≤ maxWord) (zeros : Nat) :
    word? (List.replicate zeros '0' ++ decimal line) = some line := by
  have number : Nat.ofDigitChars 10 (List.replicate zeros '0' ++ decimal line) 0 = line := by
    rw [Nat.ofDigitChars_append, Nat.ofDigitChars_replicate_zero, Nat.mul_zero]
    exact Nat.ofDigitChars_ten_toDigits
  have digits : (List.replicate zeros '0' ++ decimal line).all Char.isDigit = true :=
    List.all_eq_true.mpr fun _ => isDigit_of_mem_padded
  unfold word?
  simp [digits, number, fits, decimal_ne_nil]

theorem dropSign_padded (zeros : Nat) :
    dropStart? ['+'] (List.replicate zeros '0' ++ decimal line) = none := by
  cases written : List.replicate zeros '0' ++ decimal line with
  | nil => rfl
  | cons c rest =>
    have digit : c.isDigit = true := isDigit_of_mem_padded (written ▸ List.mem_cons_self)
    have other : '+' ≠ c := by
      rintro rfl
      cases digit
    rw [dropStart?, if_neg other]

theorem readLineNumber_writtenAs (positive : 1 ≤ line) (fits : line ≤ maxWord)
    (written : LineWrittenAs line word) : readLineNumber word = .ok line := by
  have accepted : (some line).filter (0 < ·) = some line := by simp [Nat.lt_of_succ_le positive]
  have read : lineNumber? word = some line := by
    cases written with
    | plain zeros => rw [lineNumber?, dropSign_padded, Option.getD_none, word?_padded fits, accepted]
    | signed zeros =>
      rw [lineNumber?, dropStart?, if_pos rfl, dropStart?, Option.getD_some, word?_padded fits, accepted]
  rw [readLineNumber, read]

theorem takeLabels?_parameter (other : word ≠ labelFlag) (parameters : List Text) :
    takeLabels? (word :: parameters) =
      (takeLabels? parameters).map fun (others, label) => (word :: others, label) := by
  cases parameters <;> simp [takeLabels?, other]

theorem takeLabels?_flag (label : Text) (parameters : List Text) :
    takeLabels? (labelFlag :: label :: parameters) =
      (takeLabels? parameters).map fun (others, later) => (others, later.or (some label)) := by
  simp [takeLabels?]

theorem takeLabels?_words {pieces : List Piece}
    (plain : labelFlag ∉ pieces.filterMap Piece.parameter?) :
    takeLabels? (pieces.flatMap Piece.words) =
      some (pieces.filterMap Piece.parameter?, (pieces.filterMap Piece.label?).getLast?) := by
  induction pieces with
  | nil => rfl
  | cons piece rest ih =>
    cases piece with
    | parameter word =>
      have parameters : (Piece.parameter word :: rest).filterMap Piece.parameter? =
          word :: rest.filterMap Piece.parameter? := rfl
      rw [parameters, List.mem_cons, not_or] at plain
      refine (takeLabels?_parameter (Ne.symm plain.1) (rest.flatMap Piece.words)).trans ?_
      rw [ih plain.2]
      rfl
    | scope label =>
      have labels : (Piece.scope label :: rest).filterMap Piece.label? =
          label :: rest.filterMap Piece.label? := rfl
      refine (takeLabels?_flag label (rest.flatMap Piece.words)).trans ?_
      rw [ih plain, labels, List.getLast?_cons, ← Option.or_some]
      rfl

theorem ofParameters_writtenAs {command : Command} (written : command.WrittenAs parameters)
    (lines : ∀ line ∈ command.line?, 1 ≤ line ∧ line ≤ maxWord)
    (plain : labelFlag ∉ command.editWords) :
    Command.ofParameters command.verb parameters = .ok command := by
  cases written with
  | locate isLine | label isLine | tag isLine =>
    obtain ⟨positive, fits⟩ := lines _ rfl
    have read := readLineNumber_writtenAs positive fits isLine
    simp [Command.ofParameters, Command.verb, Verb.command, read]
  | setProperty key isLine isValue =>
    obtain ⟨positive, fits⟩ := lines _ rfl
    have read := readLineNumber_writtenAs positive fits isLine
    cases isValue <;> simp [Command.ofParameters, Command.verb, Verb.command, read]
  | setStyle edit pieces isValue cut scope =>
    obtain ⟨blockType, target, property, value, label⟩ := edit
    have absent : labelFlag ∉ pieces.filterMap Piece.parameter? := by
      rw [cut]
      cases isValue with
      | written => exact plain
      | leftOut => exact fun member => plain (List.mem_append_left [[]] member)
    rw [Command.ofParameters, Command.verb, if_pos rfl, takeLabels?_words absent, cut, scope]
    cases isValue <;> rfl
  | nextIdentifier | styles | inspect => rfl

theorem ofName?_name (verb : Verb) : Verb.ofName? verb.name = some verb := by
  cases verb <;> decide

theorem ofArguments_writtenAs {invocation : Invocation} {arguments : List Text}
    (expressible : invocation.Expressible) (written : invocation.WrittenAs arguments) :
    Invocation.ofArguments arguments = .ok invocation := by
  obtain ⟨document, command⟩ := invocation
  obtain ⟨parameters, follows, rfl⟩ := written
  have read := ofParameters_writtenAs follows expressible.line expressible.edit
  cases document with
  | none => simp [Invocation.ofArguments, ofName?_name, read]
  | some document =>
    have noVerb := expressible.document document rfl
    simp [Invocation.ofArguments, noVerb, ofName?_name, read]

theorem exists_writtenAs (invocation : Invocation) : ∃ arguments, invocation.WrittenAs arguments := by
  have parameters : ∃ parameters, invocation.command.WrittenAs parameters := by
    cases invocation.command with
    | locate line => exact ⟨_, .locate (.plain 0)⟩
    | setProperty line key value => exact ⟨_, .setProperty key (.plain 0) (.written value)⟩
    | setStyle edit =>
      obtain ⟨blockType, target, property, value, label⟩ := edit
      refine ⟨_, .setStyle _ ((label.map Piece.scope).toList ++
        [.parameter blockType, .parameter target, .parameter property, .parameter value])
        (.written value) ?_ ?_⟩
      · cases label <;> rfl
      · cases label <;> rfl
    | label line => exact ⟨_, .label (.plain 0)⟩
    | tag line => exact ⟨_, .tag (.plain 0)⟩
    | nextIdentifier => exact ⟨_, .nextIdentifier⟩
    | styles => exact ⟨_, .styles⟩
    | inspect => exact ⟨_, .inspect⟩
  obtain ⟨parameters, written⟩ := parameters
  exact ⟨_, parameters, written, rfl⟩

-- Whatever the arguments are, they are an invocation or give a reason why not; no parameter is looked for
-- where there is none. An invocation that can be written is what all its written forms read as.
theorem readInvocation_writtenAs {invocation : Invocation} (expressible : invocation.Expressible) :
    (∃ arguments, invocation.WrittenAs arguments) ∧
      (∀ arguments, invocation.WrittenAs arguments →
        (Checked.readInvocation arguments).run = .ok (.ok invocation)) ∧
      ∀ arguments, (Checked.readInvocation arguments).run = .ok (Invocation.ofArguments arguments) := by
  refine ⟨exists_writtenAs invocation, fun arguments written => ?_, Checked.readInvocation_eq⟩
  rw [Checked.readInvocation_eq, ofArguments_writtenAs expressible written]

def withoutMargin : Invocation :=
  ⟨some "page".toList, .setStyle ⟨"core/text".toList, ">p".toList, "margin".toList, [], some labelFlag⟩⟩

theorem readInvocation_withoutMargin :
    withoutMargin.Expressible ∧
      (Checked.readInvocation ["page".toList, "set-style".toList, labelFlag, "s1".toList,
        "core/text".toList, ">p".toList, labelFlag, labelFlag, "margin".toList]).run =
        .ok (.ok withoutMargin) := by
  have expressible : withoutMargin.Expressible := ⟨by decide, by decide, by decide⟩
  obtain ⟨_, reads, _⟩ := readInvocation_writtenAs expressible
  refine ⟨expressible, reads _ ⟨_, ?_, rfl⟩⟩
  exact .setStyle _ [.scope "s1".toList, .parameter "core/text".toList, .parameter ">p".toList,
    .scope labelFlag, .parameter "margin".toList] .leftOut rfl rfl

end BlockMarkup
