import BlockMarkup.Report
import BlockMarkup.Session

namespace BlockMarkup

structure Inspector (compile : Compiler) where
  session : Session compile
  title : Text
  sourceLines : List Text

namespace Inspector

variable {compile : Compiler}

def start (session : Session compile) (title : Text) : Inspector compile :=
  ⟨session, title, splitLines session.source⟩

def selected (inspector : Inspector compile) : Nat := inspector.session.cursor - 1

def nextLine (inspector : Inspector compile) : Inspector compile :=
  { inspector with session := inspector.session.setCursor (inspector.session.cursor + 1) }

def previousLine (inspector : Inspector compile) : Inspector compile :=
  { inspector with session := inspector.session.setCursor (inspector.session.cursor - 1) }

def lines (inspector : Inspector compile) : List Text :=
  let session := inspector.session
  (match session.cursorBlock? with
    | some block => Report.describeBlock block session.graph
    | none => [EditError.message (.noBlockAtLine session.cursor)]) ++
  (if session.diagnostics.isEmpty then []
    else [] :: session.diagnostics.map Report.describeDiagnostic)

end Inspector
end BlockMarkup
