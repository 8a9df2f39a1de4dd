import BlockMarkup.Properties
import Mathlib.Data.List.Induction
import Mathlib.Data.List.Nodup
import Mathlib.Data.List.Perm.Subperm

namespace BlockMarkup

theorem writeEntry_absent {name value : Text} {entries : List (Text × Text)}
    (absent : name ∉ entries.map Prod.fst) :
    writeEntry name value entries = entries ++ [(name, value)] := by
  induction entries with
  | nil => rfl
  | cons entry rest ih =>
    simp only [List.map_cons, List.mem_cons, not_or] at absent
    simp [writeEntry, Ne.symm absent.1, ih absent.2]

namespace Properties

variable {p q : Properties} {name value : Text}

theorem lookup_cons_eq (name key value : Text) (rest : List (Text × Text)) :
    ((key, value) :: rest).lookup name = if name = key then some value else rest.lookup name := by
  rw [List.lookup_cons]
  by_cases same : name = key
  · simp [same]
  · have other : (name == key) = false := by simpa using same
    simp [other, same]

theorem get?_eq_some_iff : p.get? name = some value ↔ (name, value) ∈ p.entries := by
  obtain ⟨entries, distinct⟩ := p
  change entries.lookup name = some value ↔ (name, value) ∈ entries
  induction entries with
  | nil => simp
  | cons entry rest ih =>
    obtain ⟨key, old⟩ := entry
    rw [List.map_cons, List.nodup_cons] at distinct
    rw [lookup_cons_eq, List.mem_cons, ← ih distinct.2]
    by_cases same : name = key
    · subst same
      have absent : rest.lookup name = none := by
        refine List.lookup_eq_none_iff.mpr fun other member => ?_
        have apart : name ≠ other.1 := fun equal =>
          distinct.1 (List.mem_map.mpr ⟨other, member, equal.symm⟩)
        simpa using apart
      simp [absent, eq_comm]
    · simp [same]

theorem get?_eq_none_iff : p.get? name = none ↔ name ∉ p.entries.map Prod.fst := by
  rw [get?, List.lookup_eq_none_iff]
  constructor
  · intro apart member
    obtain ⟨entry, inside, same⟩ := List.mem_map.mp member
    have other := apart entry inside
    rw [same] at other
    simp at other
  · intro absent entry member
    have apart : name ≠ entry.1 := fun same =>
      absent (List.mem_map.mpr ⟨entry, member, same.symm⟩)
    simpa using apart

theorem lookup_writeEntry (name value other : Text) (entries : List (Text × Text)) :
    (writeEntry name value entries).lookup other =
      if other = name then some value else entries.lookup other := by
  induction entries with
  | nil => rw [writeEntry, lookup_cons_eq]
  | cons entry rest ih =>
    obtain ⟨key, old⟩ := entry
    rw [writeEntry]
    split
    · rename_i here
      subst here
      rw [lookup_cons_eq, lookup_cons_eq]
      split <;> rfl
    · rename_i here
      rw [lookup_cons_eq, lookup_cons_eq, ih]
      by_cases same : other = key
      · subst same
        simp [here]
      · simp [same]

theorem get?_insert (p : Properties) (name value other : Text) :
    (p.insert name value).get? other = if other = name then some value else p.get? other :=
  lookup_writeEntry name value other p.entries

theorem get?_erase (p : Properties) (name other : Text) :
    (p.erase name).get? other = if other = name then none else p.get? other := by
  refine Option.ext fun value => ?_
  rw [get?_eq_some_iff, erase, List.mem_filter]
  by_cases same : other = name
  · simp [same]
  · simp [same, get?_eq_some_iff]

theorem entries_insert_ne_nil (p : Properties) (name value : Text) :
    (p.insert name value).entries ≠ [] := by
  intro empty
  have found := get?_insert p name value name
  rw [if_pos rfl, get?_eq_some_iff, empty] at found
  cases found

def names (p : Properties) : List Text := p.entries.map Prod.fst

theorem entries_eq_of_subset {entries others : List (Text × Text)}
    (distinct : (entries.map Prod.fst).Nodup)
    (names : entries.map Prod.fst = others.map Prod.fst) (subset : entries ⊆ others) :
    entries = others := by
  induction entries generalizing others with
  | nil => exact (List.map_eq_nil_iff.mp names.symm).symm
  | cons entry rest ih =>
    cases others with
    | nil => cases names
    | cons other more =>
      rw [List.map_cons, List.map_cons, List.cons.injEq] at names
      obtain ⟨first, later⟩ := names
      rw [List.map_cons, List.nodup_cons] at distinct
      -- No later entry has the first name, so the first entries are the same one.
      have head : entry = other := by
        rcases List.mem_cons.mp (subset (by simp : entry ∈ entry :: rest)) with same | inside
        · exact same
        · exact absurd (later ▸ List.mem_map.mpr ⟨entry, inside, rfl⟩) distinct.1
      have tail : rest ⊆ more := by
        intro found member
        rcases List.mem_cons.mp (subset (List.mem_cons_of_mem _ member)) with same | inside
        · rw [same, ← head] at member
          exact absurd (List.mem_map.mpr ⟨entry, member, rfl⟩) distinct.1
        · exact inside
      rw [head, ih distinct.2 later tail]

theorem eq_of_entries (same : p.entries = q.entries) : p = q := by
  cases p
  cases q
  simp only [mk.injEq]
  exact same

theorem eq_of_names (names : p.names = q.names) (values : ∀ name, p.get? name = q.get? name) :
    p = q := by
  refine eq_of_entries (entries_eq_of_subset p.distinct names fun entry member => ?_)
  exact get?_eq_some_iff.mp ((values entry.1).symm.trans (get?_eq_some_iff.mpr member))

theorem names_insert (p : Properties) (name value : Text) :
    (p.insert name value).names = if name ∈ p.names then p.names else p.names ++ [name] :=
  keys_writeEntry name value p.entries

theorem names_erase (p : Properties) (name : Text) :
    (p.erase name).names = p.names.filter fun other => other ≠ name := by
  rw [names, names, List.filter_map]
  rfl

theorem mem_names_iff : name ∈ p.names ↔ ∃ value, p.get? name = some value := by
  rw [← not_iff_not, names, ← get?_eq_none_iff, Option.eq_none_iff_forall_ne_some, not_exists]

theorem insert_eq_self (found : p.get? name = some value) : p.insert name value = p := by
  refine eq_of_names ?_ fun other => ?_
  · rw [names_insert, if_pos (mem_names_iff.mpr ⟨value, found⟩)]
  · rw [get?_insert]
    split
    · rename_i same
      rw [same, found]
    · rfl

theorem erase_eq_self (absent : name ∉ p.names) : p.erase name = p := by
  refine eq_of_names ?_ fun other => ?_
  · rw [names_erase, List.filter_eq_self]
    intro found member
    simpa using fun same : found = name => absent (same ▸ member)
  · rw [get?_erase]
    split
    · rename_i same
      rw [same, get?_eq_none_iff.mpr absent]
    · rfl

theorem erase_insert_self (p : Properties) (name value : Text) :
    (p.insert name value).erase name = p.erase name := by
  refine eq_of_names ?_ fun other => ?_
  · rw [names_erase, names_erase, names_insert]
    split
    · rfl
    · simp
  · rw [get?_erase, get?_erase, get?_insert]
    split
    · rfl
    · rfl

theorem erase_insert_of_ne {other : Text} (apart : other ≠ name) (p : Properties) (value : Text) :
    (p.insert other value).erase name = (p.erase name).insert other value := by
  have kept : other ∈ p.names.filter (fun found => found ≠ name) ↔ other ∈ p.names := by
    simp [apart]
  refine eq_of_names ?_ fun found => ?_
  · rw [names_erase, names_insert, names_insert, names_erase]
    by_cases there : other ∈ p.names
    · rw [if_pos there, if_pos (kept.mpr there)]
    · rw [if_neg there, if_neg (mt kept.mp there), List.filter_append]
      simp [apart]
  · rw [get?_erase, get?_insert, get?_insert, get?_erase]
    by_cases same : found = other
    · simp [same, apart]
    · simp [same]

variable {pairs others : List (Text × Text)}

theorem ofList_concat (pairs : List (Text × Text)) (pair : Text × Text) :
    ofList (pairs ++ [pair]) = (ofList pairs).insert pair.1 pair.2 := by
  rw [ofList, List.foldl_append]
  rfl

theorem entries_ofList (distinct : (pairs.map Prod.fst).Nodup) : (ofList pairs).entries = pairs := by
  induction pairs using List.reverseRec with
  | nil => rfl
  | append_singleton pairs pair ih =>
    rw [List.map_append] at distinct
    obtain ⟨before, _, apart⟩ := List.nodup_append.mp distinct
    have absent : pair.1 ∉ (ofList pairs).entries.map Prod.fst := by
      rw [ih before]
      exact fun there => apart _ there _ (by simp) rfl
    calc (ofList (pairs ++ [pair])).entries
      _ = writeEntry pair.1 pair.2 (ofList pairs).entries := by
        rw [ofList_concat]
        rfl
      _ = (ofList pairs).entries ++ [pair] := writeEntry_absent absent
      _ = pairs ++ [pair] := by rw [ih before]

theorem ofList_entries (p : Properties) : ofList p.entries = p :=
  eq_of_entries (entries_ofList p.distinct)

theorem get?_ofList (pairs : List (Text × Text)) (name : Text) :
    (ofList pairs).get? name = pairs.reverse.lookup name := by
  induction pairs using List.reverseRec with
  | nil => rfl
  | append_singleton pairs pair ih =>
    obtain ⟨key, value⟩ := pair
    rw [ofList_concat, get?_insert, List.reverse_concat, lookup_cons_eq, ih]

theorem mem_names_ofList : name ∈ (ofList pairs).names ↔ name ∈ pairs.map Prod.fst := by
  induction pairs using List.reverseRec with
  | nil => rfl
  | append_singleton pairs pair ih =>
    rw [ofList_concat, names_insert, List.map_append, List.mem_append, ← ih]
    split
    · rename_i there
      constructor
      · exact .inl
      · rintro (before | last)
        · exact before
        · exact (List.mem_singleton.mp last).symm ▸ there
    · rw [List.mem_append]
      rfl

theorem names_ofList_eq (same : pairs.map Prod.fst = others.map Prod.fst) :
    (ofList pairs).names = (ofList others).names := by
  induction pairs using List.reverseRec generalizing others with
  | nil => rw [List.map_eq_nil_iff.mp same.symm]
  | append_singleton pairs pair ih =>
    rcases List.eq_nil_or_concat others with rfl | ⟨more, last, rfl⟩
    · simp at same
    · rw [List.concat_eq_append, List.map_append, List.map_append] at same
      obtain ⟨front, back⟩ := List.append_inj' same rfl
      have key : pair.1 = last.1 := by simpa using back
      rw [List.concat_eq_append, ofList_concat, ofList_concat, names_insert, names_insert, ih front,
        key]

theorem ofList_filter (pairs : List (Text × Text)) (name : Text) :
    ofList (pairs.filter fun pair => pair.1 ≠ name) = (ofList pairs).erase name := by
  induction pairs using List.reverseRec with
  | nil => rfl
  | append_singleton pairs pair ih =>
    rw [List.filter_append, ofList_concat]
    by_cases same : pair.1 = name
    · rw [← same, erase_insert_self, same, ← ih]
      simp [same]
    · rw [erase_insert_of_ne same, ← ih, ← ofList_concat]
      simp [same]

section one_name

variable {before after : List (Text × Text)} {old : Text}

theorem names_ofList_rewritten (value : Text) :
    (ofList (before ++ (name, value) :: after)).names =
      (ofList (before ++ (name, old) :: after)).names :=
  names_ofList_eq (by simp)

-- The value in a pair counts only when no pair of the same name follows.
theorem get?_ofList_rewritten (old value other : Text) :
    (ofList (before ++ (name, value) :: after)).get? other =
      if other = name ∧ name ∉ after.map Prod.fst then some value
      else (ofList (before ++ (name, old) :: after)).get? other := by
  simp only [get?_ofList, List.reverse_append, List.reverse_cons, List.append_assoc,
    List.singleton_append, List.lookup_append, lookup_cons_eq]
  by_cases same : other = name
  · have last : after.reverse.lookup name = none ↔ name ∉ after.map Prod.fst := by
      rw [← get?_ofList, get?_eq_none_iff, ← names, mem_names_ofList]
    rw [same]
    by_cases again : name ∈ after.map Prod.fst
    · obtain ⟨found, isLast⟩ := Option.ne_none_iff_exists'.mp (mt last.mp (not_not_intro again))
      simp only [isLast, again, Option.some_or, not_true_eq_false, and_false, ↓reduceIte]
    · simp only [last.mpr again, again, Option.none_or, not_false_eq_true, and_self, ↓reduceIte]
  · simp [same]

theorem ofList_rewritten_last (absent : name ∉ after.map Prod.fst) (value : Text) :
    ofList (before ++ (name, value) :: after) =
      (ofList (before ++ (name, old) :: after)).insert name value := by
  refine eq_of_names ?_ fun other => ?_
  · have there : name ∈ (ofList (before ++ (name, old) :: after)).names :=
      mem_names_ofList.mpr (by simp)
    rw [names_insert, if_pos there, names_ofList_rewritten]
  · rw [get?_insert, get?_ofList_rewritten old]
    simp [absent]

theorem ofList_rewritten_early (again : name ∈ after.map Prod.fst) (value : Text) :
    ofList (before ++ (name, value) :: after) = ofList (before ++ (name, old) :: after) := by
  refine eq_of_names (names_ofList_rewritten value) fun other => ?_
  rw [get?_ofList_rewritten old, if_neg fun both => both.2 again]

end one_name

end Properties

theorem subset_of_length_le {α : Type} [DecidableEq α] {first second : List α}
    (distinct : first.Nodup) (subset : first ⊆ second) (length : second.length ≤ first.length) :
    second ⊆ first :=
  ((List.subperm_of_subset distinct subset).perm_of_length_le length).symm.subset

theorem Properties.agrees_iff {p q : Properties} :
    p.agrees q = true ↔ ∀ name, p.get? name = q.get? name := by
  simp only [Properties.agrees, Bool.and_eq_true, decide_eq_true_eq, List.all_eq_true]
  constructor
  · rintro ⟨length, all⟩ name
    cases found : p.get? name with
    | some value => exact (all (name, value) (get?_eq_some_iff.mp found)).symm
    | none =>
      refine (get?_eq_none_iff.mpr fun member => get?_eq_none_iff.mp found ?_).symm
      refine subset_of_length_le p.distinct ?_ (by simp [length]) member
      intro key inside
      obtain ⟨entry, present, rfl⟩ := List.mem_map.mp inside
      exact List.mem_map.mpr ⟨entry, get?_eq_some_iff.mp (all entry present), rfl⟩
  · intro same
    have entries : ∀ entry, entry ∈ p.entries ↔ entry ∈ q.entries := by
      rintro ⟨name, value⟩
      rw [← get?_eq_some_iff, ← get?_eq_some_iff, same]
    refine ⟨?_, fun entry member => get?_eq_some_iff.mpr ((entries entry).mp member)⟩
    exact ((List.perm_ext_iff_of_nodup p.distinct.of_map q.distinct.of_map).mpr entries).length_eq

end BlockMarkup
