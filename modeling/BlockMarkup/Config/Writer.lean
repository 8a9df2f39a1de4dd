import BlockMarkup.Config

namespace BlockMarkup.Config

def needsCode (c : Char) : Bool := (c.toNat < 32 && c != '\t' && c != '\n') || c.toNat = 127

def holdsThree (quote : Char) : Text → Bool
  | a :: b :: c :: rest =>
    (a = quote && b = quote && c = quote) || holdsThree quote (b :: c :: rest)
  | _ => false

def hexDigits (width n : Nat) : Text :=
  let digits := (Nat.toDigits 16 n).map Char.toUpper
  List.replicate (width - digits.length) '0' ++ digits

def escaped (c : Char) : Text :=
  if c = '\\' then "\\\\".toList
  else if c = '\x08' then "\\b".toList
  else if c = '\t' then "\\t".toList
  else if c = '\x0c' then "\\f".toList
  else if c = '\r' then "\\r".toList
  else if needsCode c then '\\' :: 'u' :: hexDigits 4 c.toNat
  else [c]

def escapedLine (t : Text) : Text :=
  t.flatMap fun c =>
    if c = '"' then "\\\"".toList else if c = '\n' then "\\n".toList else escaped c

def escapedLines (count : Nat) : Text → Text
  | [] => []
  | c :: rest =>
    if c = '"' then
      if count = 2 then '\\' :: '"' :: escapedLines 0 rest else '"' :: escapedLines (count + 1) rest
    else if c = '\n' then '\n' :: escapedLines 0 rest
    else escaped c ++ escapedLines 0 rest

def betweenThree (quote : Char) (severalLines : Bool) (t : Text) : Text :=
  List.replicate 3 quote ++ (if severalLines then ['\n'] else []) ++ t ++ List.replicate 3 quote

-- A string in double quotes if it can stand there as it is, else in single quotes, else in
-- threefold quotes of the two kinds, and with escapes as a last resort.
def quoted (t : Text) : Text :=
  let severalLines := t.contains '\n'
  let coded := t.any needsCode
  let slashed := t.contains '\\'
  if !coded && !slashed && !severalLines && !t.contains '"' then '"' :: escapedLine t ++ ['"']
  else if !coded && !severalLines && !t.contains '\'' then '\'' :: t ++ ['\'']
  else if !coded && !slashed && !holdsThree '"' t then
    betweenThree '"' severalLines (escapedLines 0 t)
  else if !coded && !holdsThree '\'' t then betweenThree '\'' severalLines t
  else if severalLines then betweenThree '"' true (escapedLines 0 t)
  else '"' :: escapedLine t ++ ['"']

def flagText (b : Bool) : Text := if b then "true".toList else "false".toList

def toText (config : Config) : Text :=
  (match config.document with
    | some document => "default_document = ".toList ++ quoted document ++ "\n\n".toList
    | none => []) ++
  "[style]\nindent = ".toList ++ decimal config.indent ++
  "\n\n[targets]\nclass_prefix = ".toList ++ quoted config.targets.classPrefix ++
  "\npositional = ".toList ++ flagText config.targets.positional ++ ['\n']

end BlockMarkup.Config
