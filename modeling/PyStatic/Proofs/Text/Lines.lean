import PyStatic.Text.Source
import Mathlib.Data.List.TakeWhile

/-!
Contract: the index of lines inverts byte offsets.

Offsets and columns count bytes and lines are cut out as text. A line feed is one byte that is part
of no other character, so a scan over bytes cuts at the ends of characters.
-/

namespace PyStatic.Source

open List

variable {source : Source}

/-- A line begins there, with so many line feeds before it. -/
def StartsLine (bytes : List UInt8) (feeds start : Nat) : Prop :=
  (bytes.take start).count lineFeed = feeds ∧ (start = 0 ∨ bytes[start - 1]? = some lineFeed)

theorem length_lineRangesFrom (bytes : List UInt8) {start offset : Nat} (ordered : start ≤ offset) :
    (lineRangesFrom start offset bytes).length = bytes.count lineFeed +
      (match bytes.getLast? with
        | some byte => if byte = lineFeed then 0 else 1
        | none => if start < offset then 1 else 0) := by
  induction bytes generalizing start offset with
  | nil =>
    rw [lineRangesFrom]
    split <;> simp [*]
  | cons _ rest ih =>
    rw [lineRangesFrom]
    split
    · next isFeed =>
        rw [length_cons, ih (Nat.le_refl _), isFeed, getLast?_cons]
        cases rest.getLast? <;> simp [Nat.add_right_comm]
    · next isOther =>
        rw [ih (Nat.le_succ_of_le ordered), getLast?_cons]
        cases rest.getLast? <;> simp [isOther, Nat.lt_succ_of_le ordered]

theorem length_lineRanges (source : Source) : source.lineRanges.length = source.lineCount := by
  rw [lineRanges, length_lineRangesFrom _ (Nat.le_refl _), lineCount]
  cases source.bytes.getLast? <;> simp

theorem length_takeWhile_lineRangesFrom (bytes : List UInt8) {start offset place : Nat}
    (inRange : place ≤ offset + bytes.length) :
    ((lineRangesFrom start offset bytes).takeWhile fun range => range.stop < place).length =
      (bytes.take (place - offset)).count lineFeed := by
  induction bytes generalizing start offset with
  | nil =>
    rw [lineRangesFrom]
    split
    · simpa [takeWhile_cons] using inRange
    · simp
  | cons _ rest ih =>
    have inRest : place ≤ offset + 1 + rest.length := by
      rw [length_cons] at inRange
      omega
    rw [lineRangesFrom]
    by_cases isPast : offset < place
    · have splits : place - offset = place - (offset + 1) + 1 := by omega
      rw [splits, take_succ_cons, count_cons]
      split
      · next isFeed => simp [isPast, ih inRest, isFeed]
      · next isOther => simp [ih inRest, isOther]
    · have isBefore : place - offset = 0 := by omega
      have stillBefore : place - (offset + 1) = 0 := by omega
      rw [isBefore]
      split
      · simp [isPast]
      · simp [ih inRest, stillBefore]

theorem startsLine_lineRangesFrom {all bytes : List UInt8} {start offset number index : Nat}
    {range : TextRange} (isRest : bytes = all.drop offset) (starts : StartsLine all number start)
    (counts : (all.take offset).count lineFeed = number)
    (found : (lineRangesFrom start offset bytes)[index]? = some range) :
    StartsLine all (number + index) range.start := by
  induction bytes generalizing start offset number index with
  | nil =>
    rw [lineRangesFrom] at found
    split at found
    · cases index with
      | zero =>
        cases found
        exact starts
      | succ => simp at found
    · simp at found
  | cons byte rest ih =>
    have isByte : all[offset]? = some byte := by
      rw [← head?_drop, ← isRest, head?_cons]
    have restNext : rest = all.drop (offset + 1) := by
      rw [← tail_drop, ← isRest, tail_cons]
    have countsNext : (all.take (offset + 1)).count lineFeed =
        number + if byte = lineFeed then 1 else 0 := by
      simp [take_add_one, isByte, counts, count_singleton]
    rw [lineRangesFrom] at found
    split at found
    · next isFeed =>
        rw [if_pos isFeed] at countsNext
        cases index with
        | zero =>
          cases found
          exact starts
        | succ index =>
          have startsNext : StartsLine all (number + 1) (offset + 1) :=
            ⟨countsNext, .inr (isFeed ▸ isByte)⟩
          rw [Nat.add_comm index, ← Nat.add_assoc]
          exact ih restNext startsNext countsNext found
    · next isOther =>
        rw [if_neg isOther] at countsNext
        exact ih restNext starts countsNext found

/-- The index of the line of an offset. -/
def lineIndex (source : Source) (offset : Nat) : Nat :=
  min (source.lineRanges.takeWhile fun range => range.stop < offset).length
    (source.lineRanges.length - 1)

theorem lineIndex_mono (source : Source) {first second : Nat} (ordered : first ≤ second) :
    source.lineIndex first ≤ source.lineIndex second := by
  have further : (source.lineRanges.takeWhile fun range => range.stop < first) =
      (source.lineRanges.takeWhile fun range => range.stop < second).takeWhile
        fun range => range.stop < first := by
    rw [takeWhile_takeWhile]
    congr 1
    funext range
    simp only [decide_eq_true_eq, decide_eq_decide]
    omega
  have shorter := IsPrefix.length_le <| takeWhile_prefix
    (fun range : TextRange => decide (range.stop < first))
    (l := source.lineRanges.takeWhile fun range => range.stop < second)
  rw [← further] at shorter
  rw [lineIndex, lineIndex]
  omega

theorem position_of_lineRanges (hasLines : 0 < source.lineRanges.length) (offset : Nat) :
    ∃ range, source.lineRanges[source.lineIndex offset]? = some range ∧
      source.position offset = ⟨source.lineIndex offset + 1, offset - range.start + 1⟩ := by
  have inBounds : source.lineIndex offset < source.lineRanges.length := by
    rw [lineIndex]
    omega
  obtain ⟨range, found⟩ : ∃ range, source.lineRanges[source.lineIndex offset]? = some range :=
    ⟨_, getElem?_eq_getElem inBounds⟩
  refine ⟨range, found, ?_⟩
  unfold lineIndex at found
  simp only [position, found, lineIndex]

theorem position_mono (source : Source) {first second : Nat} (ordered : first ≤ second) :
    (source.position first).line < (source.position second).line ∨
      (source.position first).line = (source.position second).line ∧
        (source.position first).column ≤ (source.position second).column := by
  rcases Nat.eq_zero_or_pos source.lineRanges.length with none | hasLines
  · have always (offset : Nat) : source.position offset = ⟨1, 1⟩ := by
      rw [position, eq_nil_of_length_eq_zero none]
      rfl
    exact .inr ⟨by rw [always, always], by rw [always, always]⟩
  · obtain ⟨firstRange, firstFound, firstAt⟩ := position_of_lineRanges hasLines first
    obtain ⟨secondRange, secondFound, secondAt⟩ := position_of_lineRanges hasLines second
    rw [firstAt, secondAt]
    rcases Nat.lt_or_eq_of_le (source.lineIndex_mono ordered) with before | same
    · exact .inl (Nat.succ_lt_succ before)
    · rw [same, secondFound] at firstFound
      cases firstFound
      exact .inr ⟨congrArg Nat.succ same, Nat.succ_le_succ (Nat.sub_le_sub_right ordered _)⟩

theorem StartsLine.le {bytes : List UInt8} {feeds start offset : Nat}
    (starts : StartsLine bytes feeds start)
    (passed : feeds ≤ (bytes.take offset).count lineFeed) : start ≤ offset := by
  obtain ⟨counts, rfl | isFeed⟩ := starts
  · exact Nat.zero_le _
  · by_contra isPast
    have fewer : (bytes.take offset).count lineFeed ≤ (bytes.take (start - 1)).count lineFeed :=
      (take_sublist_take_left (by omega)).count_le _
    have splits : start = start - 1 + 1 := by omega
    rw [splits, take_add_one, isFeed] at counts
    simp only [Option.toList_some, count_append, count_singleton_self] at counts
    omega

theorem count_take_lt_lineCount (nonempty : source.bytes ≠ []) (offset : Nat)
    (inside : ¬ (source.bytes.length ≤ offset ∧ source.bytes.getLast? = some lineFeed)) :
    (source.bytes.take offset).count lineFeed < source.lineCount := by
  obtain ⟨init, last, splits⟩ := (source.bytes.eq_nil_or_concat).resolve_left nonempty
  rw [concat_eq_append] at splits
  rw [lineCount]
  simp only [splits, getLast?_append, getLast?_singleton, Option.some_or] at inside ⊢
  by_cases isFeed : last = lineFeed
  · have isBefore : offset ≤ init.length := by
      simp [isFeed] at inside
      omega
    have fewer := (take_sublist offset init).count_le lineFeed
    rw [take_append_of_le_length isBefore]
    simp [isFeed]
    omega
  · have fewer := (take_sublist offset (init ++ [last])).count_le lineFeed
    rw [if_neg isFeed]
    omega

theorem lineIndex_eq {offset : Nat} (inRange : offset ≤ source.bytes.length) :
    source.lineIndex offset =
      min ((source.bytes.take offset).count lineFeed) (source.lineCount - 1) := by
  rw [lineIndex, lineRanges, length_takeWhile_lineRangesFrom _ (by omega), ← lineRanges,
    length_lineRanges, Nat.sub_zero]

theorem position_exact (nonempty : source.bytes ≠ []) {offset : Nat}
    (inRange : offset ≤ source.bytes.length) :
    1 ≤ (source.position offset).line ∧ (source.position offset).line ≤ source.lineCount ∧
    (∃ start, StartsLine source.bytes ((source.position offset).line - 1) start ∧
      start + (source.position offset).column = offset + 1) ∧
    (source.position offset).line =
      if offset = source.bytes.length ∧ source.bytes.getLast? = some lineFeed then source.lineCount
      else (source.bytes.take offset).count lineFeed + 1 := by
  have hasLines : 0 < source.lineCount :=
    Nat.zero_lt_of_lt (count_take_lt_lineCount nonempty 0 (by simp [nonempty]))
  obtain ⟨range, found, isAt⟩ :=
    position_of_lineRanges (source.length_lineRanges.symm ▸ hasLines) offset
  have starts : StartsLine source.bytes (source.lineIndex offset) range.start := by
    have atIndex := startsLine_lineRangesFrom drop_zero.symm ⟨rfl, .inl rfl⟩ rfl found
    simpa using atIndex
  have index := lineIndex_eq inRange
  rw [isAt]
  refine ⟨Nat.succ_pos _, by dsimp only; omega, ⟨range.start, starts, ?_⟩, ?_⟩
  · have isBefore : range.start ≤ offset := starts.le (by omega)
    dsimp only
    omega
  · split
    · next atEnd =>
        have every : (source.bytes.take offset).count lineFeed = source.lineCount := by
          rw [atEnd.1, take_length, lineCount, atEnd.2]
          simp
        dsimp only
        omega
    · next inside =>
        have fewer := count_take_lt_lineCount nonempty offset
          (fun atEnd => inside ⟨Nat.le_antisymm inRange atEnd.1, atEnd.2⟩)
        dsimp only
        omega

theorem toList_loop_eq (bytes : ByteArray) (index : Nat) (read : List UInt8) :
    ByteArray.toList.loop bytes index read = read.reverse ++ bytes.data.toList.drop index := by
  fun_induction ByteArray.toList.loop bytes index read with
  | case1 index _ inBounds ih =>
    have isByte : bytes.get! index = bytes.data.toList[index] :=
      getElem!_pos bytes.data index inBounds
    rw [ih, reverse_cons, append_assoc, isByte, singleton_append, ← drop_eq_getElem_cons]
  | case2 index _ outside =>
    have isDone : bytes.data.toList.length ≤ index := Nat.le_of_not_lt outside
    rw [drop_eq_nil_of_le isDone, append_nil]

theorem bytes_eq (source : Source) : source.bytes = source.text.toByteArray.data.toList := by
  rw [bytes, ByteArray.toList, toList_loop_eq]
  rfl

theorem bytes_append (before after : String) :
    bytes ⟨before ++ after⟩ = bytes ⟨before⟩ ++ bytes ⟨after⟩ := by
  simp [bytes_eq]

theorem bytes_singleton (char : Char) :
    bytes ⟨String.singleton char⟩ = String.utf8EncodeChar char := by
  simp [bytes_eq, utf8Encode]

theorem length_bytes (source : Source) : source.bytes.length = source.size := by
  simp [bytes_eq, size]

theorem bytes_eq_nil_iff : source.bytes = [] ↔ source.text = "" := by
  rw [← length_eq_zero_iff, length_bytes, size, String.utf8ByteSize_eq_zero_iff]

theorem lineFeed_notMem_utf8EncodeChar {char : Char} (isOther : char ≠ '\n') :
    lineFeed ∉ String.utf8EncodeChar char := by
  have other : char.val.toNat ≠ 10 := fun same => isOther (Char.ext (UInt32.toNat_inj.mp same))
  have feed : lineFeed.toNat = 10 := rfl
  intro isByte
  simp only [String.utf8EncodeChar] at isByte
  split_ifs at isByte <;>
    simp only [mem_cons, not_mem_nil, or_false, ← UInt8.toNat_inj, UInt8.toNat_ofNat',
      feed] at isByte <;>
    omega

theorem head_utf8EncodeChar (char : Char) : ∃ byte rest,
    String.utf8EncodeChar char = byte :: rest ∧ isContinuation byte = false := by
  simp only [String.utf8EncodeChar]
  split_ifs <;> refine ⟨_, _, rfl, ?_⟩ <;>
    simp only [isContinuation, UInt8.toNat_ofNat', Bool.and_eq_false_iff,
      decide_eq_false_iff_not] <;>
    omega

theorem lineRangesFrom_append {bytes : List UInt8} (noFeed : lineFeed ∉ bytes) (start offset : Nat)
    (rest : List UInt8) : lineRangesFrom start offset (bytes ++ rest) =
      lineRangesFrom start (offset + bytes.length) rest := by
  induction bytes generalizing offset with
  | nil => rfl
  | cons _ _ ih =>
    rw [mem_cons, not_or] at noFeed
    rw [cons_append, lineRangesFrom, if_neg (Ne.symm noFeed.1), ih noFeed.2, length_cons,
      Nat.add_assoc, Nat.add_comm 1]

theorem getElem?_toUTF8 (source : Source) (offset : Nat) :
    source.text.toUTF8[offset]? = source.bytes[offset]? := by
  rw [bytes_eq, Array.getElem?_toList]
  by_cases inBounds : offset < source.text.toUTF8.size
  · rw [getElem?_pos source.text.toUTF8 offset inBounds, ByteArray.getElem_eq_getElem_data]
    exact (Array.getElem?_eq_getElem inBounds).symm
  · rw [getElem?_neg source.text.toUTF8 offset inBounds]
    exact (Array.getElem?_eq_none (Nat.le_of_not_lt inBounds)).symm

theorem isBoundary_append (before after : String) :
    isBoundary ⟨before ++ after⟩ before.utf8ByteSize := by
  have isNext : (bytes ⟨before ++ after⟩)[before.utf8ByteSize]? = (bytes ⟨after⟩)[0]? := by
    have isLength : (bytes ⟨before⟩).length = before.utf8ByteSize := length_bytes ⟨before⟩
    rw [bytes_append, getElem?_append_right (Nat.le_of_eq isLength), isLength, Nat.sub_self]
  rw [isBoundary, getElem?_toUTF8, isNext]
  obtain ⟨chars, rfl⟩ := after.exists_eq_ofList
  cases chars with
  | nil => simp [bytes_eq, size]
  | cons char =>
    obtain ⟨byte, more, isHead, isFirst⟩ := head_utf8EncodeChar char
    simp [String.ofList_cons, bytes_append, bytes_singleton, isHead, isFirst]

theorem slice_of_append {before line after : String}
    (isText : source.text = before ++ line ++ after) : source.slice
      ⟨before.utf8ByteSize, before.utf8ByteSize + line.utf8ByteSize⟩ = line := by
  obtain rfl : source = ⟨before ++ line ++ after⟩ := congrArg Source.mk isText
  have atStart : isBoundary ⟨before ++ line ++ after⟩ before.utf8ByteSize := by
    rw [String.append_assoc]
    exact isBoundary_append before (line ++ after)
  have atStop : isBoundary ⟨before ++ line ++ after⟩ (before.utf8ByteSize + line.utf8ByteSize) := by
    rw [← String.utf8ByteSize_append]
    exact isBoundary_append (before ++ line) after
  have between : (before ++ line ++ after).toUTF8.extract before.utf8ByteSize
      (before.utf8ByteSize + line.utf8ByteSize) = line.toByteArray := by
    rw [← String.utf8ByteSize_append, ← String.size_toByteArray, ← String.size_toByteArray]
    change ((before ++ line ++ after).toByteArray).extract _ _ = _
    rw [String.toByteArray_append, ByteArray.extract_append_size_left, String.toByteArray_append]
    exact ByteArray.extract_append_eq_right rfl ByteArray.size_append
  rw [slice, slice?, if_pos (by simp [atStart, atStop]), between, String.fromUTF8?,
    dif_pos line.isValidUTF8]
  rfl

theorem lineRangesFrom_ne_nil {bytes : List UInt8} (nonempty : bytes ≠ []) (offset : Nat) :
    lineRangesFrom offset offset bytes ≠ [] := by
  apply ne_nil_of_length_pos
  obtain ⟨init, last, rfl⟩ := bytes.eq_nil_or_concat.resolve_left nonempty
  rw [length_lineRangesFrom _ (Nat.le_refl _), concat_eq_append, getLast?_append]
  by_cases isFeed : last = lineFeed
  · simp [isFeed]
  · simp [isFeed]

/-- From a place inside a line on, the lines give the rest of the text but for a final line feed. -/
theorem intercalate_lineRangesFrom (chars : List Char) (before line : String)
    (isText : source.text = before ++ line ++ String.ofList chars) :
    "\n".intercalate ((lineRangesFrom before.utf8ByteSize
        (before.utf8ByteSize + line.utf8ByteSize) (bytes ⟨String.ofList chars⟩)).map
          source.slice) ++
      (if chars.getLast? = some '\n' then "\n" else "") = line ++ String.ofList chars := by
  induction chars generalizing before line with
  | nil =>
    have noBytes : bytes ⟨String.ofList []⟩ = [] := by simp [bytes_eq]
    rw [noBytes, lineRangesFrom]
    by_cases isEmpty : line = ""
    · simp [isEmpty]
    · have isLonger : 0 < line.utf8ByteSize :=
        Nat.pos_of_ne_zero (mt String.utf8ByteSize_eq_zero_iff.mp isEmpty)
      rw [if_pos (Nat.lt_add_of_pos_right isLonger), map_singleton, slice_of_append isText]
      simp
  | cons char rest ih =>
    rw [String.ofList_cons, bytes_append, bytes_singleton]
    rw [String.ofList_cons, ← String.append_assoc] at isText
    by_cases isFeed : char = '\n'
    · subst isFeed
      have isLine := slice_of_append (isText.trans String.append_assoc)
      have later := ih (before ++ line ++ "\n") "" (isText.trans (by rw [String.append_empty]; rfl))
      have isByte : String.utf8EncodeChar '\n' = [lineFeed] := by decide
      rw [isByte, singleton_append, lineRangesFrom, if_pos rfl, map_cons, isLine]
      have sameStart : (before ++ line ++ "\n").utf8ByteSize =
          before.utf8ByteSize + line.utf8ByteSize + 1 := by
        rw [String.utf8ByteSize_append, String.utf8ByteSize_append]
        rfl
      rw [String.empty_append, sameStart, String.utf8ByteSize_empty, Nat.add_zero] at later
      by_cases isEnd : rest = []
      · simp [isEnd, bytes_eq, lineRangesFrom]
      · have hasBytes : bytes ⟨String.ofList rest⟩ ≠ [] := by
          simpa [bytes_eq_nil_iff] using isEnd
        have hasNext := lineRangesFrom_ne_nil hasBytes (before.utf8ByteSize + line.utf8ByteSize + 1)
        rw [String.intercalate_cons_of_ne_nil (fun none => hasNext (map_eq_nil_iff.mp none)),
          getLast?_cons_of_ne_nil isEnd, String.append_assoc, later, String.append_assoc]
        rfl
    · have grows : before.utf8ByteSize + line.utf8ByteSize + char.utf8Size =
          before.utf8ByteSize + (line ++ String.singleton char).utf8ByteSize := by
        rw [String.utf8ByteSize_append, String.utf8ByteSize_singleton, Nat.add_assoc]
      have sameEnd : (char :: rest).getLast? = some '\n' ↔ rest.getLast? = some '\n' := by
        rw [getLast?_cons]
        cases rest.getLast? <;> simp [isFeed]
      rw [lineRangesFrom_append (lineFeed_notMem_utf8EncodeChar isFeed),
        String.length_utf8EncodeChar, grows, if_congr sameEnd rfl rfl, ← String.append_assoc]
      exact ih before (line ++ String.singleton char)
        (isText.trans (congrArg (· ++ String.ofList rest) String.append_assoc))

theorem lines_join (source : Source) :
    "\n".intercalate (source.lineRanges.map source.slice) ++
      (if source.text.toList.getLast? = some '\n' then "\n" else "") = source.text := by
  have isText : source.text = "" ++ "" ++ String.ofList source.text.toList := by simp
  have joined := intercalate_lineRangesFrom source.text.toList "" "" isText
  rwa [String.ofList_toList, String.empty_append] at joined

/-- Lines are as many as counted and join to the text; positions invert offsets and keep their
order. -/
theorem lines_invert_offsets (source : Source) :
    (∃ lines : List String, lines.length = source.lineCount ∧ source.line? 0 = none ∧
      (∀ index, source.line? (index + 1) = lines[index]?) ∧
      source.text = "\n".intercalate lines ++
        (if source.text.toList.getLast? = some '\n' then "\n" else "")) ∧
    (∀ number, (source.line? number).isSome ↔ 1 ≤ number ∧ number ≤ source.lineCount) ∧
    (∀ first second, first ≤ second →
      (source.position first).line < (source.position second).line ∨
        (source.position first).line = (source.position second).line ∧
          (source.position first).column ≤ (source.position second).column) ∧
    (source.text ≠ "" → ∀ offset ≤ source.size,
      1 ≤ (source.position offset).line ∧ (source.position offset).line ≤ source.lineCount ∧
      (∃ start, StartsLine source.bytes ((source.position offset).line - 1) start ∧
        start + (source.position offset).column = offset + 1) ∧
      (source.position offset).line =
        if offset = source.size ∧ source.bytes.getLast? = some lineFeed then source.lineCount
        else (source.bytes.take offset).count lineFeed + 1) := by
  refine ⟨⟨source.lineRanges.map source.slice, ?_, rfl, ?_, source.lines_join.symm⟩, ?_, ?_, ?_⟩
  · rw [length_map, length_lineRanges]
  · intro index
    rw [line?, if_neg (Nat.succ_ne_zero index), getElem?_map]
    rfl
  · intro number
    cases number with
    | zero => simp [line?]
    | succ index =>
      rw [line?, if_neg (Nat.succ_ne_zero index), Option.isSome_map, isSome_getElem?,
        length_lineRanges]
      omega
  · exact fun _ _ ordered => source.position_mono ordered
  · intro hasText offset inRange
    have nonempty : source.bytes ≠ [] := mt bytes_eq_nil_iff.mp hasText
    rw [← length_bytes] at inRange
    rw [← length_bytes]
    exact position_exact nonempty inRange

def accented : Source := ⟨"a = 'é'\n\n"⟩

theorem accented_invert_offsets : accented.lineCount = 2 ∧ accented.position 10 = ⟨2, 2⟩ ∧
    ∃ start, StartsLine accented.bytes ((accented.position 10).line - 1) start ∧
      start + (accented.position 10).column = 11 :=
  ⟨by decide +kernel, by decide +kernel,
    ((lines_invert_offsets accented).2.2.2 (by decide) 10 (by decide)).2.2.1⟩

end PyStatic.Source
