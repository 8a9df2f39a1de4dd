import BlockMarkup.Proofs.Files
import BlockMarkup.Proofs.Session.Transaction

namespace BlockMarkup

namespace Config

structure Usable (config : Config) : Prop where
  indent : 1 ≤ config.indent ∧ config.indent ≤ maxIndent
  someClass : config.targets.classPrefix ≠ []
  oneWord : ∀ c ∈ config.targets.classPrefix, isBlank c = false

theorem check_eq_ok_iff {config checked : Config} :
    config.check = .ok checked ↔ checked = config ∧ config.Usable := by
  unfold check
  split
  next refused =>
    refine iff_of_false (by simp) fun ⟨_, usable⟩ => ?_
    have := usable.indent
    simp only [Bool.or_eq_true, decide_eq_true_eq] at refused
    omega
  next indented =>
    split
    next refused =>
      refine iff_of_false (by simp) fun ⟨_, usable⟩ => ?_
      simp only [Bool.or_eq_true, decide_eq_true_eq, List.any_eq_true] at refused
      obtain none | ⟨c, member, blank⟩ := refused
      · exact usable.someClass none
      · exact Bool.noConfusion (blank.symm.trans (usable.oneWord c member))
    next named =>
      simp only [Bool.or_eq_true, decide_eq_true_eq, not_or, List.any_eq_true, not_exists,
        not_and, Bool.not_eq_true] at indented named
      have usable : config.Usable := ⟨by omega, named.1, named.2⟩
      rw [Except.ok.injEq, eq_comm]
      exact (and_iff_left usable).symm

theorem usable_default : default.Usable := (check_eq_ok_iff.mp rfl).2

theorem Library.usable_ofFile {ε : Type} {library : Library ε} {environment : ε}
    {content : Except FileError Text} {config : Config}
    (read : library.ofFile environment content = .ok (some config)) : config.Usable := by
  unfold ofFile at read
  split at read
  · cases read
  · cases read
  · rename_i content
    unfold ofText at read
    split at read
    · rename_i decoded _
      cases passed : decoded.check with
      | error reason =>
        rw [passed] at read
        cases read
      | ok checked =>
        obtain ⟨rfl, usable⟩ := check_eq_ok_iff.mp passed
        rw [passed] at read
        cases read
        exact ⟨usable.indent, usable.someClass, usable.oneWord⟩
    · cases read

end Config

namespace Command

def operations : Command → List Operation
  | .locate line => [.setCursor line]
  | .setProperty line key value => [.setCursor line, .setProperty key value]
  | .setStyle edit => [.applyStyle edit]
  | .label line => [.setCursor line, .scopeBlock]
  | .tag line => [.tagLine line]
  | .nextIdentifier | .styles | .inspect => []

def edited (command : Command) (config : Config) (source : Text) : Text :=
  ((Session.start compileStyles source config.indent config.targets).run command.operations).source

theorem perform_fst {compile : Compiler} (command : Command) (session : Session compile) :
    (command.perform session).1 = session.run command.operations := by
  cases command with
  | nextIdentifier | styles | inspect => rfl
  | locate | setProperty | setStyle | label | tag =>
    simp only [perform]
    split <;> simp [operations, Session.run, Session.step, *]

theorem execute_eq_ok {command : Command} {config : Config} {source : Text} {effect : Effect}
    (executed : command.execute config source = .ok effect) :
    (effect.changed = none ∧ (command.writes = true → command.edited config source = source)) ∨
      (command.writes = true ∧ effect.changed = some (command.edited config source)) := by
  unfold execute at executed
  dsimp only at executed
  generalize start : Session.start compileStyles source config.indent config.targets = session
    at executed
  have after := command.perform_fst session
  split at executed
  · cases executed
  · rename_i next printed performed
    cases executed
    rw [performed] at after
    dsimp only at after ⊢
    have edits : command.edited config source = next.source := by rw [edited, start, after]
    rw [edits]
    obtain ⟨_, same⟩ := session.generation_le_run command.operations
    rw [← after] at same
    have source : session.source = source := by rw [← start]; rfl
    rw [source] at same
    by_cases changes : (command.writes && next.generation ≠ session.generation) = true
    · rw [if_pos changes]
      exact .inr ⟨(Bool.and_eq_true_iff.mp changes).1, rfl⟩
    · rw [if_neg changes]
      exact .inl ⟨rfl, fun writes => same (by simpa [writes] using changes)⟩

end Command

namespace Program

variable {σ ι ε : Type} {store : Store σ ι} {library : Config.Library ε} {environment : ε}
  {invocation : Invocation} {before : σ}

-- The settings, the document and the text of it that a run comes to work on.
structure Opens (store : Store σ ι) (library : Config.Library ε) (environment : ε)
    (invocation : Invocation) (before : σ) (config : Config) (path source : Text) : Prop where
  settings : ∃ found, config = found.getD .default ∧
    library.ofFile environment (store.read before (library.filePath environment)) = .ok found
  document : invocation.document.or config.document = some path
  text : store.read before path = .ok source

-- Whatever is read as settings, a run goes by those that are in range.
theorem Opens.usable {config : Config} {path source : Text}
    (opens : Opens store library environment invocation before config path source) :
    config.Usable := by
  obtain ⟨found, rfl, read⟩ := opens.settings
  cases found with
  | none => exact Config.usable_default
  | some config => exact Config.Library.usable_ofFile read

inductive Run (store : Store σ ι) (library : Config.Library ε) (environment : ε)
    (invocation : Invocation) (before : σ) : Outcome → σ → Prop
  | failed (failure : Failure) :
      Run store library environment invocation before ⟨[], some failure⟩ before
  | kept (config : Config) (path source : Text) (printed : List Text)
      (opens : Opens store library environment invocation before config path source)
      (idle : invocation.command.writes = true →
        invocation.command.edited config source = source) :
      Run store library environment invocation before ⟨printed, none⟩ before
  | saved (config : Config) (path source : Text) (printed : List Text) (after : σ)
      (opens : Opens store library environment invocation before config path source)
      (writes : invocation.command.writes = true)
      (written : store.write before path (invocation.command.edited config source) =
        (after, .ok ())) :
      Run store library environment invocation before ⟨printed, none⟩ after

theorem run_runOn {config : Config} {path : Text} {outcome : Outcome} {after : σ}
    (settings : ∃ found, config = found.getD .default ∧
      library.ofFile environment (store.read before (library.filePath environment)) = .ok found)
    (document : invocation.document.or config.document = some path)
    (ran : (runOn store.access config invocation.command path).run before = (outcome, after)) :
    Run store library environment invocation before outcome after := by
  rw [runOn, Store.run_read_bind] at ran
  cases text : store.read before path with
  | error reason =>
    rw [text] at ran
    cases ran
    exact .failed _
  | ok source =>
    have opens : Opens store library environment invocation before config path source :=
      ⟨settings, document, text⟩
    rw [text] at ran
    dsimp only at ran
    cases executed : invocation.command.execute config source with
    | error reason =>
      rw [executed] at ran
      cases ran
      exact .failed reason
    | ok effect =>
      rw [executed] at ran
      dsimp only [save] at ran
      obtain ⟨unchanged, idle⟩ | ⟨writes, changed⟩ := Command.execute_eq_ok executed
      · rw [unchanged] at ran
        cases ran
        exact .kept config path source effect.printed opens idle
      · obtain ⟨file, leads, _⟩ := store.read_file text
        obtain ⟨written, wrote, _⟩ :=
          store.write_file text leads (invocation.command.edited config source)
        rw [changed] at ran
        dsimp only at ran
        rw [Store.run_write_bind, wrote] at ran
        cases ran
        exact .saved config path source effect.printed _ opens writes wrote

theorem run_runInvocation {outcome : Outcome} {after : σ}
    (ran : (runInvocation store.access library environment invocation).run before =
      (outcome, after)) :
    Run store library environment invocation before outcome after := by
  rw [runInvocation, Store.run_read_bind] at ran
  cases settings :
      library.ofFile environment (store.read before (library.filePath environment)) with
  | error reason =>
    rw [settings] at ran
    cases ran
    exact .failed _
  | ok found =>
    rw [settings] at ran
    dsimp only at ran
    cases document : invocation.document.or (found.getD .default).document with
    | none =>
      rw [document] at ran
      cases ran
      exact .failed _
    | some path =>
      rw [document] at ran
      exact run_runOn ⟨found, rfl, settings⟩ document ran

-- A run that fails leaves all files as they are, and so does one of a command that edits nothing. A run
-- that edits leaves every file but the document as it is, and the document with the text that the
-- command's operations make of it in a session with the settings.
theorem run_keeps_files (store : Store σ ι) (library : Config.Library ε) (environment : ε)
    (arguments : List Text) (before after : σ) (outcome : Outcome)
    (ran : (run store.access library environment arguments).run before = (outcome, after)) :
    (outcome.code ≠ 0 → after = before) ∧
      ∀ invocation, Invocation.ofArguments arguments = .ok invocation →
        (invocation.command.writes = false → after = before) ∧
        (invocation.command.writes = true → outcome.code = 0 →
          ∃ config path source file,
            Opens store library environment invocation before config path source ∧
            store.file? before path = some file ∧
            store.content? before file = some (.text source) ∧
            store.content? after file =
              some (.text (invocation.command.edited config source)) ∧
            ∀ other, other ≠ file → store.content? after other = store.content? before other) := by
  cases readArguments : Invocation.ofArguments arguments with
  | error reason =>
    rw [run, readArguments] at ran
    cases ran
    exact ⟨fun _ => rfl, fun _ read => by cases read⟩
  | ok invocation =>
    rw [run, readArguments] at ran
    cases run_runInvocation ran with
    | failed failure =>
      refine ⟨fun _ => rfl, fun _ _ => ⟨fun _ => rfl, fun _ succeeded => ?_⟩⟩
      cases succeeded
    | kept config path source printed opens idle =>
      refine ⟨fun _ => rfl, fun _ read => ⟨fun _ => rfl, fun writes _ => ?_⟩⟩
      cases read
      obtain ⟨file, leads, content⟩ := store.read_file opens.text
      exact ⟨config, path, source, file, opens, leads, content, by rw [idle writes, content],
        fun _ _ => rfl⟩
    | saved config path source printed after opens writes written =>
      refine ⟨fun failed => absurd rfl failed, fun _ read => ?_⟩
      cases read
      refine ⟨fun noEdit => absurd (writes.symm.trans noEdit) Bool.noConfusion, fun _ _ => ?_⟩
      obtain ⟨file, leads, content⟩ := store.read_file opens.text
      obtain ⟨after', wrote, new, others⟩ :=
        store.write_file opens.text leads (invocation.command.edited config source)
      cases written.symm.trans wrote
      exact ⟨config, path, source, file, opens, leads, content, new, others⟩

def site : Files := ⟨
  [(["page".toList], .file (.text "--- core/card\nHi".toList)),
   (["home".toList], .directory),
   (["home".toList, ".config".toList], .directory),
   (["home".toList, ".config".toList, "mkly-editor".toList], .directory),
   (["home".toList, ".config".toList, "mkly-editor".toList, "config.toml".toList],
     .file (.text "[style]\nindent = 4".toList))]⟩

-- A reader of these settings, in an environment that is the home directory.
def siteLibrary : Config.Library Text where
  decode content :=
    if content = "[style]\nindent = 4".toList then .ok { Config.default with indent := 4 }
    else .error "expected an indent".toList
  resolve? _ path := some path
  fromHome home path := if path.head? = some '~' then home ++ path.tail else path

def siteHome : Text := "home".toList

def colouring : List Text :=
  ["page", "set-style", "core/card", "self", "color", "red"].map String.toList

def colouredSite : Files :=
  site.put ["page".toList]
    (.file (.text "--- style\ncore/card\n    color: red\n\n--- core/card\nHi".toList))

theorem run_keeps_files_site :
    (run Files.access siteLibrary siteHome colouring).run site =
        (⟨["Style updated (+4 lines from line 1)".toList], none⟩, colouredSite) ∧
      (∃ invocation, Invocation.ofArguments colouring = .ok invocation ∧
        ∃ config path source file,
          Opens Files.store siteLibrary siteHome invocation site config path source ∧
          site.place? path = some file ∧
          site.content? file = some (.text source) ∧
          colouredSite.content? file = some (.text (invocation.command.edited config source)) ∧
          ∀ other, other ≠ file → colouredSite.content? other = site.content? other) ∧
      ((run Files.access siteLibrary siteHome
        (["page", "tag", "1"].map String.toList)).run site).2 = site ∧
      ((run Files.access siteLibrary siteHome
        (["page", "locate", "2"].map String.toList)).run site).2 = site := by
  have coloured : (run Files.access siteLibrary siteHome colouring).run site =
      (⟨["Style updated (+4 lines from line 1)".toList], none⟩, colouredSite) := by
    change @Eq (Outcome × Files) _ _
    decide +kernel
  have tagging := run_keeps_files Files.store siteLibrary siteHome
    (["page", "tag", "1"].map String.toList) site _ _ rfl
  have looking := run_keeps_files Files.store siteLibrary siteHome
    (["page", "locate", "2"].map String.toList) site _ _ rfl
  refine ⟨coloured, ⟨_, rfl, ?_⟩, tagging.1 (by decide +kernel), (looking.2 _ rfl).1 rfl⟩
  exact ((run_keeps_files Files.store _ _ _ _ _ _ coloured).2 _ rfl).2 rfl rfl

end Program
end BlockMarkup
