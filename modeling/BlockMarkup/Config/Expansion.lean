import BlockMarkup.Text.Word

namespace BlockMarkup.Config

structure Environment where
  home : Option Text
  lookup : Text → Option Text

def Environment.ofList (home : Option Text) (pairs : List (Text × Text)) : Environment :=
  ⟨home, fun name => pairs.reverse.lookup name⟩

inductive Piece where
  | literal (content : Text)
  | named (name : Text)
  | braced (name : Text) (fallback : Option Text)
deriving DecidableEq

def isNameCharacter (c : Char) : Bool := isAlphanumeric c || c == '_'

def splitAtMark? (first second : Char) : Text → Option (Text × Text)
  | c :: d :: rest =>
    if c = first ∧ d = second then some ([], rest)
    else (splitAtMark? first second (d :: rest)).map fun (before, after) => (c :: before, after)
  | _ => none

def Piece.ofBraces (inside : Text) : Piece :=
  match splitAtMark? ':' '-' inside with
  | some (name, fallback) => if name = [] then .braced inside none else .braced name (some fallback)
  | none => .braced inside none

theorem length_le_of_splitAtFirst? {mark : Char} {t before after : Text}
    (found : splitAtFirst? mark t = some (before, after)) : after.length ≤ t.length := by
  induction t generalizing before with
  | nil => simp [splitAtFirst?] at found
  | cons c rest ih =>
    unfold splitAtFirst? at found
    split at found
    · cases Option.some.inj found
      exact Nat.le_succ _
    · obtain ⟨⟨front, back⟩, inner, same⟩ := Option.map_eq_some_iff.mp found
      cases same
      exact Nat.le_succ_of_le (ih inner)

def pieces (t : Text) : List Piece :=
  match t with
  | [] => []
  | '$' :: '$' :: rest => .literal ['$'] :: pieces rest
  | '$' :: '\x7b' :: rest =>
    match found : splitAtFirst? '\x7d' rest with
    | some (inside, after) =>
      have := length_le_of_splitAtFirst? found
      .ofBraces inside :: pieces after
    | none => .literal ['$', '\x7b'] :: pieces rest
  | '$' :: rest =>
    if rest.takeWhile isNameCharacter = [] then .literal ['$'] :: pieces rest
    else .named (rest.takeWhile isNameCharacter) :: pieces (rest.dropWhile isNameCharacter)
  | c :: rest => .literal [c] :: pieces rest
termination_by t.length
decreasing_by
  all_goals
    have := (List.dropWhile_suffix (l := ‹Text›) isNameCharacter).length_le
    simp_all only [List.length_cons]
    omega

-- What a part stands for. A variable has to be set, and may be empty; only a fallback in braces
-- stands for one that is not.
def Piece.expand? (environment : Environment) : Piece → Option Text
  | .literal content => some content
  | .named name => environment.lookup name
  | .braced name fallback => (environment.lookup name).or fallback

def references (path : Text) : List Text :=
  (pieces path).filterMap fun
    | .literal _ => none
    | .named name => some name
    | .braced name _ => some name

def expandVariables? (environment : Environment) (path : Text) : Option Text :=
  ((pieces path).mapM (Piece.expand? environment)).map List.flatten

def fromHome (environment : Environment) (path : Text) : Text :=
  match path with
  | '~' :: rest =>
    if rest = [] || rest.head? = some '/' then (environment.home.map (· ++ rest)).getD path else path
  | _ => path

def resolve? (environment : Environment) (path : Text) : Option Text :=
  (expandVariables? environment path).map fun expanded =>
    if path.head? = some '~' then fromHome environment expanded else expanded

end BlockMarkup.Config
