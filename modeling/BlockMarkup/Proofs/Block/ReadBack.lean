import BlockMarkup.Proofs.Block.Patch
import BlockMarkup.Proofs.Properties

namespace BlockMarkup

def Properties.set (p : Properties) (name value : Text) : Properties :=
  if value = [] then p.erase name else p.insert name value

namespace Properties

variable {name value old : Text} {before later : List (Text × Text)}

theorem ofList_set_absent (absent : name ∉ before.map Prod.fst) (value : Text) :
    ofList (before ++ if value = [] then [] else [(name, value)]) =
      (ofList before).set name value := by
  rw [set]
  split
  · rw [List.append_nil, erase_eq_self (mt mem_names_ofList.mp absent)]
  · rw [ofList_concat]

-- Rewriting the first pair of a name sets it only when no other pair of it follows, or when the
-- one that counts has the value already.
theorem ofList_set_iff (first : name ∉ before.map Prod.fst) :
    ofList (before ++ if value = [] then later else (name, value) :: later) =
        (ofList (before ++ (name, old) :: later)).set name value ↔
      name ∉ later.map Prod.fst ∨
        value ≠ [] ∧ (ofList (before ++ (name, old) :: later)).get? name = some value := by
  rw [set]
  by_cases again : name ∈ later.map Prod.fst
  · by_cases empty : value = []
    · have kept : name ∈ (ofList (before ++ later)).names :=
        mem_names_ofList.mpr (by simpa using .inr (by simpa using again))
      simp only [empty, ↓reduceIte, again, not_true_eq_false, ne_eq, false_and, or_self, iff_false]
      intro same
      rw [same, names_erase] at kept
      simp at kept
    · simp only [empty, ↓reduceIte, again, not_true_eq_false, ne_eq, not_false_eq_true, true_and,
        false_or]
      rw [ofList_rewritten_early again]
      constructor
      · intro same
        rw [same, get?_insert, if_pos rfl]
      · intro found
        rw [insert_eq_self found]
  · simp only [again, not_false_eq_true, true_or, iff_true]
    split
    · have kept : ∀ pairs : List (Text × Text), name ∉ pairs.map Prod.fst →
          pairs.filter (fun pair => pair.1 ≠ name) = pairs := by
        intro pairs absent
        refine List.filter_eq_self.mpr fun pair member => ?_
        simpa using fun same : pair.1 = name => absent (List.mem_map.mpr ⟨pair, member, same⟩)
      rw [← ofList_filter, List.filter_append, kept before first, List.filter_cons_of_neg (by simp),
        kept later again]
    · exact ofList_rewritten_last again value

end Properties

namespace Block

variable {text key value line : Text} {above inside below range after : List Text}
variable {named : Header}

theorem pairs_rewritten (rewritten : Rewritten key value range after) (isKey : IsKey key)
    (trimmed : trim value = value) (plain : '\n' ∉ value) :
    key ∉ (pairs range).map Prod.fst ∧
        pairs after = pairs range ++ (if value = [] then [] else [(key, value)]) ∨
      ∃ before old later, key ∉ before.map Prod.fst ∧
        pairs range = before ++ (key, old) :: later ∧
        pairs after = before ++ (if value = [] then later else (key, value) :: later) := by
  have shown : ∀ indent : Text, (∀ c ∈ indent, isBlank c = true) →
      Line.classify (indent ++ propertyText key value) = .property indent key value :=
    fun indent blanks => classify_propertyText blanks isKey trimmed plain
  cases rewritten with
  | same absent empty => exact .inl ⟨absent, by simp [empty]⟩
  | @replaced front rest here indent old leading first read present =>
    refine .inr ⟨pairs front, old, pairs rest, first, ?_, ?_⟩
    · rw [pairs_append leading, pairs_cons_of_property read]
    · rw [pairs_append leading, if_neg present,
        pairs_cons_of_property (shown indent (indent_of_classify read).1)]
  | @removed front rest here indent old leading first read empty =>
    refine .inr ⟨pairs front, old, pairs rest, first, ?_, ?_⟩
    · rw [pairs_append leading, pairs_cons_of_property read]
    · rw [pairs_append leading, if_pos empty]
  | @inserted front rest gap leading absent last present apart =>
    -- The blank line does not end the cluster, and no property follows it.
    have below : pairs (gap ++ rest) = [] := by
      rcases apart with rfl | ⟨rfl, _⟩
      · exact last
      · have blank : ∀ line ∈ [([] : Text)], Leading line := by
          intro line member
          rw [List.mem_singleton.mp member]
          exact .inr rfl
        rw [pairs_append blank, last]
        rfl
    left
    rw [pairs_append leading, last, List.append_nil]
    refine ⟨absent, ?_⟩
    have new := pairs_cons_of_property (shown [] (by simp)) (gap ++ rest)
    rw [List.nil_append] at new
    rw [pairs_append leading, new, below, if_neg present]

theorem ofList_rewritten_iff (rewritten : Rewritten key value range after) (isKey : IsKey key)
    (trimmed : trim value = value) (plain : '\n' ∉ value) :
    Properties.ofList (pairs after) = (Properties.ofList (pairs range)).set key value ↔
      ((pairs range).map Prod.fst).count key ≤ 1 ∨
        value ≠ [] ∧ (Properties.ofList (pairs range)).get? key = some value := by
  rcases pairs_rewritten rewritten isKey trimmed plain with
    ⟨absent, read⟩ | ⟨before, old, later, first, found, read⟩
  · rw [read]
    refine iff_of_true (Properties.ofList_set_absent absent value) (.inl ?_)
    rw [List.count_eq_zero_of_not_mem absent]
    exact Nat.zero_le _
  · have once : (((before ++ (key, old) :: later).map Prod.fst).count key ≤ 1) ↔
        key ∉ later.map Prod.fst := by
      rw [List.map_append, List.map_cons, List.count_append, List.count_cons_self,
        List.count_eq_zero_of_not_mem first, ← List.count_eq_zero]
      omega
    rw [read, found, once]
    exact Properties.ofList_set_iff first

theorem Parts.patched (parts : Parts (splitLines text) named above line inside below)
    (isKey : IsKey key) (value : Text) :
    ∃ after, Rewritten key (foldValue value) inside after ∧
      Parts (splitLines (patchProperty text named.line (shown named inside).endLine key value))
        named above line after below := by
  obtain ⟨range, tail, after, cut, length, rewritten, written⟩ :=
    splitLines_patchProperty parts (shown named inside).endLine value (newline_notMem_key isKey)
  have blockEnd : (shown named inside).endLine = named.line + 1 + inside.length := rfl
  rw [parts.boundaryAfter, blockEnd, Nat.min_self] at length
  have whole : tail = [] := by
    have sum := congrArg List.length cut
    rw [List.length_append] at sum
    exact List.length_eq_zero_iff.mp (by omega)
  subst whole
  rw [List.append_nil] at cut
  subst cut
  refine ⟨after, rewritten, written, parts.place, parts.heads, parts.noStyle, ?_, parts.stop⟩
  obtain ⟨trimmed, plain⟩ := foldValue_trimmed value
  exact plain_rewritten rewritten parts.plain isKey trimmed plain

-- A property that was set over the whole block reads back, and all else of the block with it,
-- exactly when no second line has the key or the value is the one that is read already.
theorem readsBack_patchProperty {text : Text} {number : Nat} {block : Block}
    (located : locate? text number = some block) (here : block.startLine = number) {key : Text}
    (isKey : IsKey key) (value : Text) :
    ∃ after,
      locate? (patchProperty text block.startLine block.endLine key value) number = some after ∧
        after.blockType = block.blockType ∧ after.label = block.label ∧
        after.isSpecial = block.isSpecial ∧ after.startLine = block.startLine ∧
        (after.endLine : Int) = block.endLine +
          lineDelta text (patchProperty text block.startLine block.endLine key value) ∧
        (after.properties = block.properties.set key (foldValue value) ↔
          ((propertyCluster (splitLines text) block.startLine block.endLine).map
              PropertyLine.key).count key ≤ 1 ∨
            foldValue value ≠ [] ∧ block.properties.get? key = some (foldValue value)) := by
  obtain ⟨named, above, line, inside, below, parts, rfl⟩ := exists_parts_of_locate? located here
  rw [parts.locate?, Option.some.injEq] at located
  subst located
  obtain ⟨after, rewritten, patched⟩ := parts.patched isKey value
  obtain ⟨trimmed, plain⟩ := foldValue_trimmed value
  have keys : (propertyCluster (splitLines text) (shown named inside).startLine
      (shown named inside).endLine).map PropertyLine.key = (pairs inside).map Prod.fst := by
    have length : named.line + 1 + inside.length - 1 - named.line = inside.length := by omega
    rw [shown, parts.propertyCluster (Nat.le_refl _), length, List.take_length,
      ← pairs_of_clusterFrom (named.line + 1), List.map_map]
    rfl
  refine ⟨shown named after, patched.locate?, rfl, rfl, rfl, rfl, ?_, ?_⟩
  · have before := congrArg List.length parts.whole
    have now := congrArg List.length patched.whole
    simp only [List.length_append, List.length_cons] at before now
    simp only [shown] at now ⊢
    rw [lineDelta, lineCount, lineCount, before, now]
    omega
  · rw [keys]
    simpa only [shown, readProperties_clusterFrom] using
      ofList_rewritten_iff rewritten isKey trimmed plain

theorem readsBack_patchProperty_once :
    ∃ after, locate? (patchProperty "--- core/card\nsize: 1\nHi".toList 1 4 "size".toList
          "3".toList) 1 = some after ∧
      after.properties.entries = [("size".toList, "3".toList)] := by
  have located : locate? "--- core/card\nsize: 1\nHi".toList 1 =
      some ⟨"core/card".toList, 1, 4, .ofList [("size".toList, "1".toList)], none⟩ := by decide
  have isKey : IsKey "size".toList := ⟨'s', "ize".toList, .inl rfl, by decide, List.all_eq_true.mp rfl⟩
  obtain ⟨after, read, _, _, _, _, _, properties⟩ :=
    readsBack_patchProperty located rfl isKey "3".toList
  refine ⟨after, read, ?_⟩
  rw [properties.mpr (by decide)]
  decide

theorem twice_not_readsBack :
    ∃ block, locate? "--- core/card\nsize: 1\nsize: 2\nHi".toList 1 = some block ∧
      block.startLine = 1 ∧ IsKey "size".toList ∧
      ∀ after, locate? (patchProperty "--- core/card\nsize: 1\nsize: 2\nHi".toList
          block.startLine block.endLine "size".toList "3".toList) 1 = some after →
        after.properties = block.properties ∧
          after.properties ≠ block.properties.set "size".toList "3".toList := by
  refine ⟨⟨"core/card".toList, 1, 5, .ofList [("size".toList, "2".toList)], none⟩, by decide, rfl,
    ⟨'s', "ize".toList, .inl rfl, by decide, List.all_eq_true.mp rfl⟩, ?_⟩
  intro after read
  have patched : locate? (patchProperty "--- core/card\nsize: 1\nsize: 2\nHi".toList 1 5
      "size".toList "3".toList) 1 =
      some ⟨"core/card".toList, 1, 5, .ofList [("size".toList, "2".toList)], none⟩ := by decide
  rw [patched, Option.some.injEq] at read
  subst read
  exact ⟨rfl, by decide⟩

end Block
end BlockMarkup
