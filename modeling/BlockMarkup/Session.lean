import BlockMarkup.Naming
import BlockMarkup.Block.Patch
import BlockMarkup.Document.Outline
import BlockMarkup.Style.Edit
import BlockMarkup.Tree.Click

namespace BlockMarkup

structure Session (compile : Compiler) where
  source : Text
  generation : Nat
  cursor : Nat
  graph : Style.Graph
  output : CompileOutput
  indent : Nat
  targets : TargetOptions

namespace Session

variable {compile : Compiler}

def start (compile : Compiler) (source : Text) (indent : Nat) (targets : TargetOptions) :
    Session compile :=
  { source := source
    generation := 0
    cursor := 1
    graph := (compile source).graph
    output := compile source
    indent := indent
    targets := targets }

def diagnostics (session : Session compile) : List Diagnostic := session.output.diagnostics

def setCursor (session : Session compile) (line : Nat) : Session compile :=
  { session with cursor := min (max line 1) (lineCount session.source) }

def cursorBlock? (session : Session compile) : Option Block :=
  Block.locate? session.source session.cursor

def commit (session : Session compile) (source : Text) : Session compile :=
  { session with
    source := source
    generation := session.generation + 1
    graph := (compile source).graph
    output := compile source }

def replaceSource (session : Session compile) (source : Text) : Session compile :=
  (session.commit source).setCursor session.cursor

def requireBlock (session : Session compile) : Except EditError Block :=
  match session.cursorBlock? with
  | some block => .ok block
  | none => .error (.noBlockAtLine session.cursor)

-- The cursor after the text has become another one: it follows its line.
def movedCursor (session : Session compile) (changed : Text) : Nat :=
  if firstChange (splitLines session.source) (splitLines changed) ≤ session.cursor then
    max ((session.cursor : Int) + lineDelta session.source changed).toNat 1
  else session.cursor

def setProperty (session : Session compile) (key value : Text) :
    Session compile × Except EditError Bool :=
  match session.requireBlock with
  | .error refusal => (session, .error refusal)
  | .ok block =>
    let changed := Block.patchProperty session.source block.startLine block.endLine key value
    if changed = session.source then (session, .ok false)
    else
      (({ session with cursor := session.movedCursor changed } : Session compile).commit changed,
        .ok true)

def applyStyle (session : Session compile) (edit : Style.Edit) :
    Session compile × Except EditError Style.Patch :=
  match Style.patch session.indent session.source session.graph edit with
  | .error refusal => (session, .error refusal)
  | .ok patch =>
    if patch.text = session.source then ({ session with graph := patch.graph }, .ok patch)
    else
      (({ session with cursor := patch.shiftLine session.cursor } : Session compile).commit
        patch.text, .ok patch)

def styleEdit (block : Block) (target property value : Text) : Style.Edit :=
  { blockType := block.blockType
    target := target
    property := property
    value := value
    label := if block.isSpecial then none else block.label }

def setStyle (session : Session compile) (target property value : Text) :
    Session compile × Except EditError Style.Patch :=
  match session.requireBlock with
  | .error refusal => (session, .error refusal)
  | .ok block => session.applyStyle (styleEdit block target property value)

-- Gives the block at the cursor a label, unless it has one, so that style edits can be scoped to
-- it.
def scopeBlock (session : Session compile) : Session compile × Except EditError Text :=
  match session.requireBlock with
  | .error refusal => (session, .error refusal)
  | .ok block =>
    if block.isSpecial then (session, .error (.reservedBlockType block.blockType))
    else match block.label with
      | some label => (session, .ok label)
      | none =>
        let label := Identifier.next session.source
        match Naming.injectLabel? session.source block.startLine label with
        | some changed => (session.commit changed, .ok label)
        | none => (session, .error (.noBlockAtLine block.startLine))

def tagLine (session : Session compile) (line : Nat) : Session compile × Option Text :=
  let name := Identifier.next session.source
  match Naming.injectClass? session.source line name with
  | some changed => (session.commit changed, some (Landing.target (.identified name)))
  | none => (session, none)

def clickTarget (session : Session compile) (tree : Tree) (clicked root : Nat) : Text :=
  tree.clickTarget session.targets clicked root

end Session

inductive Operation where
  | setCursor (line : Nat)
  | replaceSource (source : Text)
  | setProperty (key value : Text)
  | applyStyle (edit : Style.Edit)
  | setStyle (target property value : Text)
  | scopeBlock
  | tagLine (line : Nat)
deriving DecidableEq

inductive OperationResult where
  | done
  | refused (reason : EditError)
  | property (changed : Bool)
  | styled (patch : Style.Patch)
  | scoped (label : Text)
  | tagged (target : Option Text)
deriving DecidableEq

def OperationResult.ofExcept {α : Type} (answer : α → OperationResult) :
    Except EditError α → OperationResult
  | .error reason => .refused reason
  | .ok value => answer value

namespace Session

variable {compile : Compiler}

def step (session : Session compile) : Operation → Session compile × OperationResult
  | .setCursor line => (session.setCursor line, .done)
  | .replaceSource source => (session.replaceSource source, .done)
  | .setProperty key value =>
    let (next, answer) := session.setProperty key value
    (next, .ofExcept .property answer)
  | .applyStyle edit =>
    let (next, answer) := session.applyStyle edit
    (next, .ofExcept .styled answer)
  | .setStyle target property value =>
    let (next, answer) := session.setStyle target property value
    (next, .ofExcept .styled answer)
  | .scopeBlock =>
    let (next, answer) := session.scopeBlock
    (next, .ofExcept .scoped answer)
  | .tagLine line =>
    let (next, target) := session.tagLine line
    (next, .tagged target)

def run (session : Session compile) (operations : List Operation) : Session compile :=
  operations.foldl (fun current operation => (current.step operation).1) session

end Session
end BlockMarkup
