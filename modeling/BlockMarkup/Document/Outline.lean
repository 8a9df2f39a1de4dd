import BlockMarkup.EditError
import BlockMarkup.Style.Region

namespace BlockMarkup

inductive Severity where
  | error
  | warning
deriving DecidableEq

structure Diagnostic where
  severity : Severity
  line : Nat
  message : Text
deriving DecidableEq

structure OutlineEntry where
  blockType : Text
  label : Option Text
  startLine : Nat
  endLine : Nat
deriving DecidableEq

def outlineFrom (number : Nat) : List Text → List OutlineEntry
  | [] => []
  | line :: rest =>
    match Line.classify line with
    | .header blockType label =>
      ⟨blockType, label, number, number + 1 + (linesToBoundary rest).length⟩ ::
        outlineFrom (number + 1) rest
    | _ => outlineFrom (number + 1) rest

def outline (source : Text) : List OutlineEntry := outlineFrom 1 (splitLines source)

def closeBlock? (blockType : Text) : List Text → Option (List Text)
  | [] => none
  | innermost :: outer =>
    if innermost = blockType then some outer else closeBlock? blockType outer

def strayCloseMessage (blockType : Text) : Text :=
  "Closing tag '--- /".toList ++ blockType ++ "' has no open block".toList

def laterStyleMessage : Text := "Only the first '--- style' block is used".toList

-- The warnings about lines that are numbered from `number` on, where blocks are open and a style
-- block may have been seen above. Style blocks hold no other blocks, so they never count as open.
def warningsFrom (number : Nat) (opened : List Text) (styleSeen : Bool) :
    List Text → List Diagnostic
  | [] => []
  | line :: rest =>
    match Line.classify line with
    | .header blockType _ =>
      if blockType = styleType then
        let following := warningsFrom (number + 1) opened true rest
        if styleSeen then ⟨.warning, number, laterStyleMessage⟩ :: following else following
      else warningsFrom (number + 1) (blockType :: opened) styleSeen rest
    | .close blockType =>
      match closeBlock? blockType opened with
      | some outer => warningsFrom (number + 1) outer styleSeen rest
      | none =>
        ⟨.warning, number, strayCloseMessage blockType⟩ ::
          warningsFrom (number + 1) opened styleSeen rest
    | _ => warningsFrom (number + 1) opened styleSeen rest

def warnings (source : Text) : List Diagnostic := warningsFrom 1 [] false (splitLines source)

structure CompileOutput where
  html : Text
  diagnostics : List Diagnostic
  outline : List OutlineEntry
  graph : Style.Graph
deriving DecidableEq

namespace CompileOutput

def empty : CompileOutput := ⟨[], [], [], .empty⟩

def hasErrors (output : CompileOutput) : Bool :=
  output.diagnostics.any fun diagnostic => diagnostic.severity = .error

-- The entry that starts last, and of several that start there the last.
def innermost? : List OutlineEntry → Option OutlineEntry
  | [] => none
  | entry :: rest =>
    match innermost? rest with
    | none => some entry
    | some other => if other.startLine < entry.startLine then some entry else some other

def blockAt? (output : CompileOutput) (line : Nat) : Option OutlineEntry :=
  innermost? (output.outline.filter fun entry => entry.startLine ≤ line && line < entry.endLine)

end CompileOutput

abbrev Compiler := Text → CompileOutput

def compileStyles : Compiler := fun source =>
  { html := []
    diagnostics := warnings source
    outline := outline source
    graph := .ofSource source }

end BlockMarkup
