import BlockMarkup.Proofs.Checked.Naming

namespace BlockMarkup.Checked

variable {text : Text} {lines : List Text} {cursor : UInt64} {block : Block} {header : Header}
variable {start stop boundary : Nat}

theorem propertyCluster_of_ends (fits : lines.length < maxWord) (within : start ≤ lines.length)
    (ends : Ends lines start boundary) (reaches : boundary ≤ stop) :
    propertyCluster lines start stop =
      .ok (BlockMarkup.clusterFrom (start + 1) (lines.drop start)) := by
  rw [propertyCluster_eq_ok fits within, propertyCluster_of_boundary (ends.eq_boundaryAfter ▸ reaches)]

theorem exists_header_of_locate (fits : Fits text) (located : locate text cursor = .ok (some block)) :
    ∃ header number, IsOver (splitLines text) number header ∧ header.blockType ≠ styleType ∧
      Block.ofHeader (splitLines text) header number = block := by
  rw [locate_eq fits] at located
  split at located
  · cases located
  · rw [← locate?_min] at located
    obtain ⟨header, isOver, noStyle, read⟩ :=
      (locate?_eq_some_iff (Nat.min_le_right _ _)).mp (Except.ok.inj located)
    exact ⟨header, _, isOver, noStyle, read⟩

theorem locate_header (fits : Fits text) (heads : Heads (splitLines text) header)
    (noStyle : header.blockType ≠ styleType) (here : cursor.toNat = header.line) :
    locate text cursor = .ok (some (Block.ofHeader (splitLines text) header header.line)) := by
  have within : header.line ≤ lineCount text := heads.line_le
  have isOver : IsOver (splitLines text) header.line header :=
    ⟨heads, Nat.le_refl _, fun _ _ upTo => upTo⟩
  have bound := fits.lines_lt
  rw [lineCount] at within
  rw [locate_eq fits, here, if_neg (by omega),
    (locate?_eq_some_iff heads.line_le).mpr ⟨header, isOver, noStyle, rfl⟩]

structure GoesBy (text : Text) (block : Block) (cluster : List PropertyLine) : Prop where
  located : propertyCluster (splitLines text) block.startLine block.endLine = .ok cluster ∧
    block.properties = Block.readProperties cluster
  tagged : propertyCluster (splitLines text) block.startLine (lineCount text + 1) = .ok cluster ∧
    ∀ number kind, isRefused (splitLines text) number kind
      (some ⟨block.startLine, block.blockType, block.label⟩) =
        .ok (kind.isProperty && cluster.any fun found => found.line = number)
  written : ∀ (start stop : UInt64) (key value : Text), start.toNat = block.startLine →
    patchProperty text start stop key value =
      joinLines <$> writeProperty (splitLines text) block.startLine
        (min stop.toNat (boundaryAfter (splitLines text) block.startLine)) key (foldValue value)
  whole : ∀ stop, boundaryAfter (splitLines text) block.startLine ≤ stop →
    propertyCluster (splitLines text) block.startLine
      (min stop (boundaryAfter (splitLines text) block.startLine)) = .ok cluster
  cut : ∀ stop, propertyCluster (splitLines text) block.startLine
      (min stop (boundaryAfter (splitLines text) block.startLine)) =
    .ok (cluster.filter fun found => found.line < stop)

theorem goesBy_cluster (fits : Fits text) (located : locate text cursor = .ok (some block)) :
    ∃ cluster, GoesBy text block cluster := by
  obtain ⟨header, number, isOver, noStyle, rfl⟩ := exists_header_of_locate fits located
  have within := isOver.heads.line_le
  have ends := ends_boundaryAfter (splitLines text) header.line
  have reached : ∀ stop, boundaryAfter (splitLines text) header.line ≤ stop →
      propertyCluster (splitLines text) header.line stop =
        .ok (BlockMarkup.clusterFrom (header.line + 1) ((splitLines text).drop header.line)) :=
    fun stop => propertyCluster_of_ends fits.lines_lt within ends
  have toEnd := reached _ (ends.le_length within)
  refine ⟨BlockMarkup.clusterFrom (header.line + 1) ((splitLines text).drop header.line),
    ⟨reached _ (boundaryAfter_le isOver.above), ?_⟩,
    ⟨toEnd, isRefused_of_cluster fits.lines_lt noStyle toEnd⟩, ?_, ?_, ?_⟩
  · rw [← propertyCluster_boundaryAfter isOver.above]
    rfl
  · intro start stop key value here
    rw [patchProperty, locate_header fits isOver.heads noStyle here, ok_bind]
    dsimp only [Block.ofHeader] at here ⊢
    rw [if_pos here.symm, here]
    rfl
  · intro stop reaches
    exact reached _ (Nat.le_min.mpr ⟨reaches, Nat.le_refl _⟩)
  · intro stop
    dsimp only [Block.ofHeader]
    rw [propertyCluster_eq_ok fits.lines_lt within, propertyCluster_eq_filter]
    refine congrArg Except.ok (List.filter_congr fun found member => ?_)
    have before := line_lt_boundaryAfter member
    rw [decide_eq_decide]
    omega

theorem locate_of_startLine (fits : Fits text) {same : Block} {other : UInt64}
    (located : locate text cursor = .ok (some block)) (again : locate text other = .ok (some same))
    (start : same.startLine = block.startLine) :
    same.properties = block.properties ∧ same.label = block.label ∧
      same.blockType = block.blockType := by
  obtain ⟨header, number, isOver, _, rfl⟩ := exists_header_of_locate fits located
  obtain ⟨otherHeader, otherNumber, otherOver, _, rfl⟩ := exists_header_of_locate fits again
  have line : otherHeader.line = header.line := start
  have kinds := otherOver.heads
  rw [Heads, line, isOver.heads, Option.some.injEq, Line.header.injEq] at kinds
  refine ⟨?_, kinds.2.symm, kinds.1.symm⟩
  rw [properties_ofHeader isOver.above, properties_ofHeader otherOver.above, line]

-- For lines as they stand in memory the search gives the property lines of the longest run before the
-- end, and the same ones for every end that the next boundary is not past. So a block is the same from
-- every line that it is located at, and all that is done with it goes by one cluster. A range for
-- writing may also end above the boundary; what is written then goes by the part of the cluster that
-- is in the range.
theorem propertyCluster_longest :
    (∀ (lines : List Text) (start stop : Nat), lines.length < maxWord → start ≤ lines.length →
      (∃ past cluster, LongestRun lines start stop past ∧
        PropertiesBetween lines start past cluster ∧
        propertyCluster lines start stop = .ok cluster) ∧
      ∀ boundary other, Ends lines start boundary → boundary ≤ stop → boundary ≤ other →
        propertyCluster lines start stop = propertyCluster lines start other) ∧
    ∀ text, Fits text → ∀ cursor block, locate text cursor = .ok (some block) →
      (∀ other same, locate text other = .ok (some same) → same.startLine = block.startLine →
        same.properties = block.properties ∧ same.label = block.label ∧
          same.blockType = block.blockType) ∧
      ∃ cluster, GoesBy text block cluster := by
  refine ⟨fun lines start stop fits within => ⟨?_, ?_⟩, fun text fits cursor block located =>
    ⟨fun other same => locate_of_startLine fits located, goesBy_cluster fits located⟩⟩
  · obtain ⟨past, run, between⟩ := longestRun_propertyCluster lines start stop
    exact ⟨past, _, run, between, propertyCluster_eq_ok fits within stop⟩
  · intro boundary other ends reaches otherReaches
    rw [propertyCluster_of_ends fits within ends reaches,
      propertyCluster_of_ends fits within ends otherReaches]

-- A card that a closing tag ends, with a line below the tag that looks like a property.
def closedEarly : Text :=
  "--- core/card: a\nsize: 1\n\ncolor: red\nHi\n--- /core/card\nnote: x\n--- core/text".toList

def closedEarlyCard (stop : Nat) : Block :=
  ⟨"core/card".toList, 1, stop,
    .ofList [("size".toList, "1".toList), ("color".toList, "red".toList)], some "a".toList⟩

theorem propertyCluster_longest_closedEarly :
    Fits closedEarly ∧ Ends (splitLines closedEarly) 1 6 ∧
      (∃ past cluster, LongestRun (splitLines closedEarly) 1 6 past ∧
        PropertiesBetween (splitLines closedEarly) 1 past cluster ∧
        propertyCluster (splitLines closedEarly) 1 6 = .ok cluster) ∧
      propertyCluster (splitLines closedEarly) 1 6 = propertyCluster (splitLines closedEarly) 1 9 ∧
      locate closedEarly 2 = .ok (some (closedEarlyCard 6)) ∧
      locate closedEarly 7 = .ok (some (closedEarlyCard 8)) ∧
      (closedEarlyCard 8).properties = (closedEarlyCard 6).properties ∧
      ∃ cluster, GoesBy closedEarly (closedEarlyCard 6) cluster := by
  obtain ⟨search, operations⟩ := propertyCluster_longest
  have fits : Fits closedEarly := by decide
  have within : 1 ≤ (splitLines closedEarly).length := by decide
  have ends : Ends (splitLines closedEarly) 1 6 := ends_boundaryAfter (splitLines closedEarly) 1
  have near : locate closedEarly 2 = .ok (some (closedEarlyCard 6)) := by decide +kernel
  have far : locate closedEarly 7 = .ok (some (closedEarlyCard 8)) := by decide +kernel
  obtain ⟨run, ended⟩ := search (splitLines closedEarly) 1 6 fits.lines_lt within
  obtain ⟨same, goesBy⟩ := operations closedEarly fits 2 _ near
  exact ⟨fits, ends, run, ended 6 9 ends (by decide) (by decide), near, far,
    (same 7 _ far rfl).1, goesBy⟩

end BlockMarkup.Checked
