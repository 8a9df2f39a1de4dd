import BlockMarkup.Toml.Scalar

namespace BlockMarkup.Toml

def skipSpace (t : Text) : Text := t.dropWhile isSpace

def endLine? (t : Text) : Option Text :=
  let afterComment :=
    match skipSpace t with
    | '#' :: rest => rest.dropWhile isPlain
    | rest => rest
  if afterComment = [] then some []
  else if startsLine afterComment then some (dropLineBreak afterComment)
  else none

def skipLines (inComment : Bool) : Text → Text
  | [] => []
  | c :: rest =>
    if c = '\n' then skipLines false rest
    else if startsLine (c :: rest) then skipLines inComment rest
    else if inComment then (if isPlain c then skipLines true rest else c :: rest)
    else if isSpace c then skipLines false rest
    else if c = '#' then skipLines true rest
    else c :: rest

def isKeyCharacter (c : Char) : Bool := c.isAlphanum || c == '_' || c == '-'

def readKey : Text → Option (Text × Text)
  | '"' :: rest => readLineString '"' rest
  | '\'' :: rest => readLineString '\'' rest
  | t =>
    if (t.takeWhile isKeyCharacter).isEmpty then none
    else some (t.takeWhile isKeyCharacter, t.dropWhile isKeyCharacter)

def readPath : Nat → Text → Option (KeyPath × Text)
  | 0, _ => none
  | fuel + 1, t =>
    match readKey t with
    | none => none
    | some (key, after) =>
      match skipSpace after with
      | '.' :: rest =>
        (readPath fuel (skipSpace rest)).map fun (path, after) =>
          (⟨key :: path.tables, path.key⟩, after)
      | rest => some (⟨[], key⟩, rest)

def nestingLimit : Nat := 80

mutual

-- A value. The first argument bounds the length of what is read, the second says how many brackets
-- and braces may still be opened.
def readValue : Nat → Nat → Text → Option (Value × Text)
  | 0, _, _ => none
  | fuel + 1, room, t =>
    match t, room with
    | '"' :: rest, _ => (readString '"' rest).map fun (content, after) => (.string content, after)
    | '\'' :: rest, _ => (readString '\'' rest).map fun (content, after) => (.string content, after)
    | '[' :: _, 0 | '\x7b' :: _, 0 => none
    | '[' :: rest, room + 1 =>
      (readItems fuel room rest).map fun (items, after) => (.array items, after)
    | '\x7b' :: rest, room + 1 =>
      match readAssignments fuel room rest with
      | none => none
      | some (assignments, after) =>
        (Members.assignAll? [] assignments).map fun members => (.table .complete members, after)
    | t, _ => (bare? (cutBare t).1).map fun value => (value, (cutBare t).2)

def readItems : Nat → Nat → Text → Option (List Value × Text)
  | 0, _, _ => none
  | fuel + 1, room, t =>
    match skipLines false t with
    | ']' :: after => some ([], after)
    | t =>
      match readValue fuel room t with
      | none => none
      | some (item, after) =>
        match skipLines false after with
        | ',' :: rest =>
          (readItems fuel room rest).map fun (items, after) => (item :: items, after)
        | ']' :: after => some ([item], after)
        | _ => none

def readMember : Nat → Nat → Text → Option (Assignment × Text)
  | 0, _, _ => none
  | fuel + 1, room, t =>
    match readPath fuel t with
    | none => none
    | some (path, after) =>
      match skipLines false after with
      | '=' :: rest =>
        (readValue fuel room (skipLines false rest)).map fun (value, after) =>
          (⟨path, value⟩, after)
      | _ => none

def readAssignments : Nat → Nat → Text → Option (List Assignment × Text)
  | 0, _, _ => none
  | fuel + 1, room, t =>
    match skipLines false t with
    | '\x7d' :: after => some ([], after)
    | t =>
      match readMember fuel room t with
      | none => none
      | some (assignment, after) =>
        match skipLines false after with
        | ',' :: rest =>
          (readAssignments fuel room rest).map fun (others, after) => (assignment :: others, after)
        | '\x7d' :: after => some ([assignment], after)
        | _ => none

end

def readAssignment (fuel : Nat) (t : Text) : Option (Assignment × Text) :=
  match readPath fuel t with
  | some (path, '=' :: rest) =>
    (readValue fuel nestingLimit (skipSpace rest)).map fun (value, after) => (⟨path, value⟩, after)
  | _ => none

def readHeading (fuel : Nat) : Text → Option (Heading × Text)
  | '[' :: rest =>
    match readPath fuel (skipSpace rest) with
    | some (path, ']' :: ']' :: after) => some (.element path, after)
    | _ => none
  | rest =>
    match readPath fuel (skipSpace rest) with
    | some (path, ']' :: after) => some (.table path, after)
    | _ => none

def readBody : Nat → Text → Option (List Assignment × Text)
  | 0, _ => none
  | fuel + 1, t =>
    match skipSpace t with
    | [] => some ([], [])
    | '[' :: rest => some ([], '[' :: rest)
    | t =>
      match endLine? t with
      | some rest => readBody fuel rest
      | none => do
        let (assignment, after) ← readAssignment fuel t
        let (others, after) ← readBody fuel (← endLine? after)
        return (assignment :: others, after)

def readParts : Nat → Text → Option (List Part)
  | 0, _ => none
  | fuel + 1, t =>
    match t with
    | '[' :: rest => do
      let (heading, after) ← readHeading fuel rest
      let (assignments, after) ← readBody fuel (← endLine? after)
      return ⟨heading, assignments⟩ :: (← readParts fuel after)
    | [] => some []
    | _ => none

def byteOrderMark : Char := '\ufeff'

def ofText? (t : Text) : Option Members := do
  let t := (dropStart? [byteOrderMark] t).getD t
  let fuel := 2 * t.length + 4
  let (assignments, after) ← readBody fuel t
  (← readParts fuel after).foldlM Members.addPart? (← Members.assignAll? [] assignments)

end BlockMarkup.Toml
