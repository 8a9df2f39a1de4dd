import BlockMarkup.Text.Blank

namespace BlockMarkup.Toml

inductive Origin where
  | implied
  | dotted
  | headed
  | complete
deriving DecidableEq

inductive Value where
  | string (content : Text)
  | integer (n : Int)
  | boolean (b : Bool)
  | float
  | tooLarge
  | date
  | array (items : List Value)
  | table (origin : Origin) (members : List (Text × Value))
  | tables (earlier : List (List (Text × Value))) (last : List (Text × Value))

abbrev Members := List (Text × Value)

mutual

def Value.fits : Value → Bool
  | .tooLarge => false
  | .array items => itemsFit items
  | .table _ members => membersFit members
  | .tables earlier last => tablesFit earlier && membersFit last
  | .string _ | .integer _ | .boolean _ | .float | .date => true

def itemsFit : List Value → Bool
  | [] => true
  | item :: rest => item.fits && itemsFit rest

def membersFit : List (Text × Value) → Bool
  | [] => true
  | (_, value) :: rest => value.fits && membersFit rest

def tablesFit : List (List (Text × Value)) → Bool
  | [] => true
  | members :: rest => membersFit members && tablesFit rest

end

structure KeyPath where
  tables : List Text
  key : Text
deriving DecidableEq

structure Assignment where
  path : KeyPath
  value : Value

inductive Heading where
  | table (path : KeyPath)
  | element (path : KeyPath)
deriving DecidableEq

structure Part where
  heading : Heading
  assignments : List Assignment

namespace Members

def get? (members : Members) (key : Text) : Option Value := members.lookup key

def except (names : List Text) (members : Members) : Members :=
  members.filter fun member => !names.contains member.1

def replace (members : Members) (key : Text) (value : Value) : Members :=
  members.map fun (name, old) => (name, if name = key then value else old)

def add? (members : Members) (key : Text) (value : Value) : Option Members :=
  match members.get? key with
  | none => some (members ++ [(key, value)])
  | some _ => none

-- Changes the table that names lead to from a table. Those on the way that are missing are made.
-- A dotted key does not lead into a table with a heading, and nothing leads into a complete one.
def descend (making : Origin) (change : Origin → Members → Option Members) :
    Origin → List Text → Members → Option Members
  | origin, [], members => change origin members
  | _, name :: names, members =>
    match members.get? name with
    | none => do members.add? name (.table making (← descend making change making names []))
    | some (.table origin inner) =>
      if origin = .complete || (origin = .headed && making = .dotted) then none
      else do
        return members.replace name (.table origin (← descend making change origin names inner))
    | some (.tables earlier last) => do
      return members.replace name (.tables earlier (← descend making change .headed names last))
    | some _ => none

def assign? (members : Members) (assignment : Assignment) : Option Members :=
  let path := assignment.path
  descend .dotted
    (fun origin inner =>
      if path.tables = [] || origin = .dotted then inner.add? path.key assignment.value else none)
    .headed path.tables members

def assignAll? (members : Members) (assignments : List Assignment) : Option Members :=
  assignments.foldlM assign? members

def addPart? (members : Members) (part : Part) : Option Members :=
  match part.heading with
  | .table path =>
    descend .implied
      (fun _ inner =>
        match inner.get? path.key with
        | none => do
          inner.add? path.key (.table .headed (← assignAll? [] part.assignments))
        | some (.table .implied there) => do
          return inner.replace path.key (.table .headed (← assignAll? there part.assignments))
        | some _ => none)
      .headed path.tables members
  | .element path =>
    descend .implied
      (fun _ inner =>
        match inner.get? path.key with
        | none => do inner.add? path.key (.tables [] (← assignAll? [] part.assignments))
        | some (.tables earlier last) => do
          return inner.replace path.key
            (.tables (earlier ++ [last]) (← assignAll? [] part.assignments))
        | some _ => none)
      .headed path.tables members

end Members
end BlockMarkup.Toml
