

namespace BlockMarkup

-- Documents, lines, names and values are all texts: runs of characters.
abbrev Text := List Char

def isBlank (c : Char) : Bool :=
  let n := c.toNat
  (0x09 ≤ n && n ≤ 0x0D) || n == 0x20 || n == 0x85 || n == 0xA0 || n == 0x1680 ||
    (0x2000 ≤ n && n ≤ 0x200A) || n == 0x2028 || n == 0x2029 || n == 0x202F || n == 0x205F ||
    n == 0x3000

def trimStart (t : Text) : Text := t.dropWhile isBlank

def trimEnd (t : Text) : Text := (t.reverse.dropWhile isBlank).reverse

def trim (t : Text) : Text := trimEnd (trimStart t)

def blankSeparated (t : Text) : List Text := (t.splitOnP isBlank).filter fun piece => !piece.isEmpty

def dropReturn (line : Text) : Text :=
  if line.getLast? = some '\r' then line.dropLast else line

def finalReturn (line : Text) : Text :=
  if line.getLast? = some '\r' then ['\r'] else []

theorem dropReturn_append_finalReturn (line : Text) : dropReturn line ++ finalReturn line = line := by
  unfold dropReturn finalReturn
  split
  · rename_i ends
    obtain ⟨front, rfl⟩ := List.getLast?_eq_some_iff.mp ends
    simp
  · simp

def dropStart? : (start t : Text) → Option Text
  | [], t => some t
  | _ :: _, [] => none
  | c :: start, d :: t => if c = d then dropStart? start t else none

theorem dropStart?_eq_some_iff {start t rest : Text} :
    dropStart? start t = some rest ↔ t = start ++ rest := by
  induction start generalizing t with
  | nil => simp [dropStart?]
  | cons c start ih =>
    cases t with
    | nil => simp [dropStart?]
    | cons d t =>
      by_cases same : c = d
      · simp [dropStart?, same, ih]
      · simp [dropStart?, same, Ne.symm same]

def splitAtFirst? (mark : Char) : Text → Option (Text × Text)
  | [] => none
  | c :: rest =>
    if c = mark then some ([], rest)
    else (splitAtFirst? mark rest).map fun (before, after) => (c :: before, after)

end BlockMarkup
