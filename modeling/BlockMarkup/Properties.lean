import BlockMarkup.Text.Blank

namespace BlockMarkup

def writeEntry (name value : Text) : List (Text × Text) → List (Text × Text)
  | [] => [(name, value)]
  | (key, old) :: rest =>
    if key = name then (key, value) :: rest else (key, old) :: writeEntry name value rest

theorem keys_writeEntry (name value : Text) (entries : List (Text × Text)) :
    (writeEntry name value entries).map Prod.fst =
      if name ∈ entries.map Prod.fst then entries.map Prod.fst
      else entries.map Prod.fst ++ [name] := by
  induction entries with
  | nil => simp [writeEntry]
  | cons entry rest ih =>
    obtain ⟨key, old⟩ := entry
    by_cases same : key = name
    · simp [writeEntry, same]
    · simp only [writeEntry, same, ↓reduceIte, List.map_cons, ih, List.mem_cons, Ne.symm same,
        false_or]
      split <;> simp

theorem nodup_writeEntry {name value : Text} {entries : List (Text × Text)}
    (distinct : (entries.map Prod.fst).Nodup) :
    ((writeEntry name value entries).map Prod.fst).Nodup := by
  rw [keys_writeEntry]
  split
  · exact distinct
  · rename_i absent
    refine List.nodup_append.mpr ⟨distinct, by simp, ?_⟩
    intro key there other isName same
    rw [List.mem_singleton] at isName
    exact absent (isName ▸ same ▸ there)

structure Properties where
  entries : List (Text × Text)
  distinct : (entries.map Prod.fst).Nodup
deriving DecidableEq

namespace Properties

def empty : Properties := ⟨[], by simp⟩

def isEmpty (p : Properties) : Bool := p.entries.isEmpty

def get? (p : Properties) (name : Text) : Option Text := p.entries.lookup name

def insert (p : Properties) (name value : Text) : Properties :=
  ⟨writeEntry name value p.entries, nodup_writeEntry p.distinct⟩

def erase (p : Properties) (name : Text) : Properties :=
  ⟨p.entries.filter fun entry => entry.1 ≠ name,
    p.distinct.sublist (List.filter_sublist.map _)⟩

def ofList (pairs : List (Text × Text)) : Properties :=
  pairs.foldl (fun p pair => p.insert pair.1 pair.2) empty

-- Whether two maps have the same names with the same values, in whatever order.
def agrees (p q : Properties) : Bool :=
  p.entries.length = q.entries.length && p.entries.all fun entry => q.get? entry.1 = some entry.2

end Properties
end BlockMarkup
