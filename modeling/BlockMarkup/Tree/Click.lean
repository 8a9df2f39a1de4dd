import BlockMarkup.Identifier
import BlockMarkup.Style.Descendant
import BlockMarkup.Tree

namespace BlockMarkup

structure TargetOptions where
  classPrefix : Text
  positional : Bool
deriving DecidableEq

def TargetOptions.default : TargetOptions := ⟨Style.defaultClassPrefix, false⟩

def inlineTags : List Text :=
  ["a".toList, "abbr".toList, "b".toList, "bdi".toList, "bdo".toList, "br".toList, "cite".toList,
    "code".toList, "data".toList, "del".toList, "dfn".toList, "em".toList, "i".toList,
    "ins".toList, "kbd".toList, "mark".toList, "q".toList, "s".toList, "samp".toList,
    "small".toList, "span".toList, "strong".toList, "sub".toList, "sup".toList, "time".toList,
    "u".toList, "var".toList]

def isInlineTag (tag : Text) : Bool := inlineTags.contains tag

inductive Landing where
  | root
  | identified (name : Text)
  | part (name : Text)
  | element (tag : Text) (position : Option Nat)
deriving DecidableEq

def Landing.target : Landing → Text
  | .root => Style.selfTarget
  | .identified name => '>' :: '.' :: name
  | .part name => name
  | .element tag none => '>' :: tag
  | .element tag (some position) =>
    '>' :: tag ++ ":nth-of-type(".toList ++ decimal position ++ [')']

def splitAtPair? : Text → Option (Text × Text)
  | '_' :: '_' :: rest => some ([], rest)
  | c :: rest => (splitAtPair? rest).map fun (before, after) => (c :: before, after)
  | [] => none

def hasBlockPrefix (classPrefix name : Text) : Bool :=
  match dropStart? classPrefix name with
  | some ('-' :: _) => true
  | _ => false

def ownClass? (classPrefix : Text) (root : Element) : Option Text :=
  (root.classes.find? (hasBlockPrefix classPrefix)).filter fun name => (splitAtPair? name).isNone

-- The part that a class names: what follows the block's class and two underscores. When the block
-- has no class of its own, any class with the prefix will do.
def partName? (classPrefix : Text) (own : Option Text) (name : Text) : Option Text :=
  match own with
  | some block => (dropStart? block name).bind (dropStart? ['_', '_'])
  | none =>
    if (dropStart? classPrefix name).isSome then (splitAtPair? name).map Prod.snd else none

namespace Tree

def tellingPosition? (tree : Tree) (options : TargetOptions) (id : Nat) : Option Nat :=
  if options.positional then
    match tree.positionOfType? id with
    | some (position, count) => if 1 < count then some position else none
    | none => none
  else none

-- What an element decides about a click. An inline element without a class that says more decides
-- nothing.
def decide? (tree : Tree) (options : TargetOptions) (own : Option Text) (id : Nat) :
    Option Landing :=
  match tree.get? id with
  | none => some .root
  | some element =>
    match element.classes.find? Identifier.isIdentifier with
    | some name => some (.identified name)
    | none =>
      match element.classes.findSome? (partName? options.classPrefix own) with
      | some name => some (.part name)
      | none =>
        if isInlineTag element.tag then none
        else some (.element element.tag (tree.tellingPosition? options id))

def landing (tree : Tree) (options : TargetOptions) (clicked root : Nat) : Landing :=
  match tree.get? root with
  | none => .root
  | some element =>
    if tree.isWithin clicked root then
      let below := (tree.path clicked).takeWhile fun id => id != root
      (below.findSome? (tree.decide? options (ownClass? options.classPrefix element))).getD .root
    else .root

def clickTarget (tree : Tree) (options : TargetOptions) (clicked root : Nat) : Text :=
  (tree.landing options clicked root).target

end Tree
end BlockMarkup
