import BlockMarkup.Text.Blank

namespace BlockMarkup

inductive Content where
  | text (content : Text)
  | binary
deriving DecidableEq

inductive FileNode where
  | directory
  | file (content : Content)
deriving DecidableEq

abbrev Place := List Text

structure Files where
  -- The nodes below the directory, each together with the directories on the way to it.
  entries : List (Place × FileNode)
deriving DecidableEq

inductive FileError where
  | notFound (path : Text)
  | unusable (reason : Text)
deriving DecidableEq

def FileError.message : FileError → Text
  | .notFound path => "File not found: ".toList ++ path
  | .unusable reason => "IO error: ".toList ++ reason

namespace Files

def empty : Files := ⟨[]⟩

def node? (files : Files) (place : Place) : Option FileNode :=
  if place = [] then some .directory
  else (files.entries.find? fun entry => entry.1 = place).map (·.2)

def put (files : Files) (place : Place) (node : FileNode) : Files :=
  ⟨files.entries.filter (fun entry => entry.1 ≠ place) ++ [(place, node)]⟩

theorem node?_put_self (files : Files) {place : Place} (below : place ≠ []) (node : FileNode) :
    (files.put place node).node? place = some node := by
  have gone : (files.entries.filter fun entry => entry.1 ≠ place).find?
      (fun entry => entry.1 = place) = none := by
    simp [List.find?_eq_none]
  simp only [node?, put, if_neg below, List.find?_append, gone]
  simp

theorem node?_put_of_ne (files : Files) {place other : Place} (apart : other ≠ place)
    (node : FileNode) : (files.put place node).node? other = files.node? other := by
  unfold node? put
  split
  · rfl
  · have kept : (files.entries.filter fun entry => entry.1 ≠ place).find?
        (fun entry => entry.1 = other) = files.entries.find? (fun entry => entry.1 = other) := by
      rw [List.find?_filter]
      congr 1
      funext entry
      by_cases same : entry.1 = other
      · simp [same, apart]
      · simp [same]
    rw [List.find?_append, kept]
    simp [Ne.symm apart]

def pathNames (path : Text) : List Text :=
  (path.splitOn '/').filter fun name => name ≠ [] ∧ name ≠ ['.']

def parentName : Text := ['.', '.']

def meansDirectory (path : Text) : Bool :=
  match (path.splitOn '/').getLast? with
  | some name => name = [] || name = ['.'] || name = parentName
  | none => true

def step? (files : Files) (place : Place) (name : Text) : Option Place :=
  if files.node? place = some .directory then
    if name = parentName then
      if place = [] then none else some place.dropLast
    else some (place ++ [name])
  else none

def isRelative (path : Text) : Bool := !path.isEmpty && path.head? != some '/'

def find? (files : Files) (path : Text) : Option FileNode :=
  if isRelative path then do
    let node ← files.node? (← (pathNames path).foldlM files.step? [])
    if meansDirectory path && node != .directory then none else some node
  else none

def isDirectoryReason : Text := "Is a directory (os error 21)".toList

def notDirectoryReason : Text := "Not a directory (os error 20)".toList

def missingReason : Text := "No such file or directory (os error 2)".toList

def notTextReason : Text := "stream did not contain valid UTF-8".toList

def read (files : Files) (path : Text) : Except FileError Text :=
  match files.find? path with
  | none => .error (.notFound path)
  | some .directory => .error (.unusable isDirectoryReason)
  | some (.file .binary) => .error (.unusable notTextReason)
  | some (.file (.text content)) => .ok content

-- The place of a directory below another one, with directories made where there are none. A file
-- that is in the way stops it; what has been made by then stays.
def makeDirectories (place : Place) : List Text → Files → Files × Option Place
  | [], files => (files, some place)
  | name :: names, files =>
    match files.step? place name with
    | none => (files, none)
    | some next =>
      match files.node? next with
      | some .directory => makeDirectories next names files
      | some (.file _) => (files, none)
      | none => makeDirectories next names (files.put next .directory)

def write (files : Files) (path : Text) (content : Content) : Files × Except FileError Unit :=
  match (pathNames path).getLast? with
  | none => (files, .error (.unusable missingReason))
  | some name =>
    if isRelative path then
      match makeDirectories [] (pathNames path).dropLast files with
      | (files, none) => (files, .error (.unusable notDirectoryReason))
      | (files, some place) =>
        if meansDirectory path || files.node? (place ++ [name]) = some .directory then
          (files, .error (.unusable isDirectoryReason))
        else (files.put (place ++ [name]) (.file content), .ok ())
    else (files, .error (.unusable missingReason))

def pathTo (place : Place) : Text := ['/'].intercalate place

def listing (files : Files) : List (Text × Content) :=
  (files.entries.filterMap fun (place, node) =>
    match node with
    | .directory => none
    | .file content => some (pathTo place, content)).mergeSort fun first second =>
      String.ofList first.1 ≤ String.ofList second.1

end Files
end BlockMarkup
