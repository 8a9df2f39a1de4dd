import BlockMarkup.Text.Blank

namespace BlockMarkup

def splitLines (t : Text) : List Text := t.splitOn '\n'

def joinLines (lines : List Text) : Text := ['\n'].intercalate lines

theorem joinLines_splitLines (t : Text) : joinLines (splitLines t) = t :=
  List.intercalate_splitOn '\n'

def lineCount (t : Text) : Nat := (splitLines t).length

def lineDelta (before after : Text) : Int := (lineCount after : Int) - lineCount before

def lineAt? (lines : List Text) : Nat → Option Text
  | 0 => none
  | number + 1 => lines[number]?

def replaceLine (lines : List Text) (number : Nat) (line : Text) : List Text :=
  lines.set (number - 1) line

-- The number of the first line in which two lists of lines differ. When one begins with the
-- other, it is the number after the shorter one.
def firstChange : (before after : List Text) → Nat
  | a :: before, b :: after => if a = b then firstChange before after + 1 else 1
  | _, _ => 1

end BlockMarkup
